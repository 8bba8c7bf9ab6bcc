import RustyCastle.Upnp.Soap

/-!
The ContentDirectory action model and its SOAP responses. The response to a
browse request determines the listing and the two counts in it.
-/

namespace RustyCastle.UpnpAv
open Foundation RustyCastle.Upnp

def contentDirectoryService : ServiceTypeRef where
  domain := "schemas-upnp-org".toList
  kind := "ContentDirectory".toList
  version := 1

inductive BrowseFlag where
  | metadata
  | directChildren
  deriving DecidableEq, Repr

def BrowseFlag.parse (value : Str) : Option BrowseFlag :=
  if value = "BrowseMetadata".toList then some .metadata
  else if value = "BrowseDirectChildren".toList then some .directChildren
  else none

structure BrowseResponseRef where
  result : Str
  numberReturned : UInt32
  totalMatches : UInt32
  updateId : UInt32
  deriving DecidableEq, Repr

/-- Digits are written into ten slots from the back. -/
def u32Display (value : UInt32) : Str :=
  if value = 0 then ['0'] else Decimal.digitLoop 10 value.toNat []

theorem u32Display_eq (value : UInt32) : u32Display value = Decimal.numeral value.toNat := by
  unfold u32Display
  split
  · rename_i h
    subst h
    decide
  · rename_i h
    have hpos : 0 < value.toNat := by
      rw [Nat.pos_iff_ne_zero]
      exact fun h0 => h (UInt32.toNat_inj.mp h0)
    have hlt : value.toNat < 10 ^ 10 := value.toNat_lt.trans (by decide)
    rw [Decimal.digitLoop_eq [] hpos hlt, List.append_nil]

/-- The arguments of a browse response. -/
def browseArguments (result numberReturned totalMatches updateId : Str) :
    List ResponseArgumentRef :=
  [{ name := "Result".toList, value := result },
    { name := "NumberReturned".toList, value := numberReturned },
    { name := "TotalMatches".toList, value := totalMatches },
    { name := "UpdateID".toList, value := updateId }]

def writeBrowseResponse (response : BrowseResponseRef) : Str :=
  writeActionResponse contentDirectoryService "Browse".toList
    (browseArguments response.result (u32Display response.numberReturned)
      (u32Display response.totalMatches) (u32Display response.updateId))

def writeSystemUpdateIdResponse (updateId : UInt32) : Str :=
  writeActionResponse contentDirectoryService "GetSystemUpdateID".toList
    [{ name := "Id".toList, value := u32Display updateId }]

/-- A browse response determines its arguments. -/
theorem browseArguments_injective {r n t u r' n' t' u' : Str}
    (h : writeActionResponse contentDirectoryService "Browse".toList (browseArguments r n t u) =
      writeActionResponse contentDirectoryService "Browse".toList (browseArguments r' n' t' u')) :
    r = r' ∧ n = n' ∧ t = t' ∧ u = u' := by
  unfold writeActionResponse at h
  simp only [browseArguments, List.flatMap_cons, List.flatMap_nil, List.append_assoc,
    List.append_cancel_left_eq] at h
  obtain ⟨hr, h⟩ := writeTextElement_append_inj h
  obtain ⟨hn, h⟩ := writeTextElement_append_inj h
  obtain ⟨ht, h⟩ := writeTextElement_append_inj h
  obtain ⟨hu, -⟩ := writeTextElement_append_inj h
  exact ⟨hr, hn, ht, hu⟩

end RustyCastle.UpnpAv
