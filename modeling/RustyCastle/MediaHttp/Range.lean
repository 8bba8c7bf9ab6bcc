import RustyCastle.Foundation.Decimal
import RustyCastle.Foundation.Splitting

/-!
HTTP byte ranges. Positions and lengths are numbers below 2^64.
-/

namespace RustyCastle.MediaHttp
open Foundation

/-- A parsed byte range before it is applied to a representation length. -/
inductive ByteRangeSpec where
  | from (first : Nat) (last : Option Nat) (first_le : ∀ n ∈ last, first ≤ n)
  | suffix (len : Nat) (len_pos : 0 < len)
  deriving DecidableEq, Repr

/-- An inclusive range of the bytes of a representation. -/
structure SatisfiableRange (totalLen : Nat) where
  start : Nat
  stop : Nat
  start_le : start ≤ stop
  stop_lt : stop < totalLen
  deriving DecidableEq, Repr

def SatisfiableRange.len {totalLen : Nat} (range : SatisfiableRange totalLen) : Nat :=
  range.stop - range.start + 1

inductive RangeError where
  | invalid
  | unsatisfiable
  deriving DecidableEq, Repr

def parseU64 (input : Str) : Except RangeError Nat :=
  if input.isEmpty || ! input.all Char.isDigit then .error .invalid
  else (Decimal.parseUnsigned 64 input).elim (.error .invalid) .ok

/-- Parses a single `Range` header value. -/
def parseRangeHeader (input : Str) : Except RangeError ByteRangeSpec :=
  match Str.stripPrefix "bytes=".toList (Str.trim input) with
  | none => .error .invalid
  | some spec =>
      if ',' ∈ spec then .error .invalid
      else
        match Str.cut ['-'] spec with
        | none => .error .invalid
        | some (start, stop) =>
            if start.isEmpty then do
              let len ← parseU64 stop
              if h : len = 0 then .error .unsatisfiable
              else .ok (.suffix len (Nat.pos_of_ne_zero h))
            else do
              let first ← parseU64 start
              if stop.isEmpty then .ok (.from first none nofun)
              else
                let last ← parseU64 stop
                if h : last < first then .error .unsatisfiable
                else .ok (.from first (some last) (by simpa using h))

/-- Applies a range to a representation length. -/
def ByteRangeSpec.apply (range : ByteRangeSpec) (totalLen : Nat) :
    Except RangeError (SatisfiableRange totalLen) :=
  if h0 : totalLen = 0 then .error .unsatisfiable
  else
    match range with
    | .from first last first_le =>
        if h : first < totalLen then
          .ok
            { start := first
              stop := last.elim (totalLen - 1) fun last => min last (totalLen - 1)
              start_le := by
                cases last with
                | none => exact Nat.le_sub_one_of_lt h
                | some last => exact Nat.le_min.mpr ⟨first_le last rfl, Nat.le_sub_one_of_lt h⟩
              stop_lt := by cases last <;> simp <;> omega }
        else .error .unsatisfiable
    | .suffix len len_pos =>
        .ok
          { start := totalLen - min len totalLen
            stop := totalLen - 1
            start_le := by omega
            stop_lt := by omega }

end RustyCastle.MediaHttp
