import RustyCastle.Foundation.Ledger
import RustyCastle.Ssdp.ControlPointSteps
import RustyCastle.Ssdp.SearchSent

/-!
The transmit queue of the control point. Every entry is a length and reads from
the start of the one buffer, and every search writes there, so the queue is
intact exactly as long as the writes agree with what still waits.
-/

namespace RustyCastle.Ssdp
open Foundation Foundation.HeaderBlock Foundation.Runs

/-! What a search writes -/

def headerPieces (name value : Str) : List (List UInt8) :=
  [name.bytes, [58, 32], value.bytes, [13, 10]]

def numberPieces (label : Str) (n : UInt32) : List (List UInt8) :=
  [label.bytes, (u32ToStr n).bytes, [13, 10]]

def targetPieces : TargetRef → List (List UInt8)
  | .all => [Str.bytes "ssdp:all".toList]
  | .rootDevice => [Str.bytes "upnp:rootdevice".toList]
  | .uuid u => [Str.bytes "uuid:".toList, u.bytes]
  | .deviceType domain kind version =>
      [Str.bytes "urn:".toList, domain.bytes, Str.bytes ":device:".toList, kind.bytes, [58],
        (u32ToStr version).bytes]
  | .serviceType domain kind version =>
      [Str.bytes "urn:".toList, domain.bytes, Str.bytes ":service:".toList, kind.bytes, [58],
        (u32ToStr version).bytes]

/-- The writes of the encoder, in order. -/
def MSearchRef.pieces (m : MSearchRef) : List (List UInt8) :=
  [Str.bytes "M-SEARCH * HTTP/1.1\r\n".toList] ++
  (headerPieces "HOST".toList m.host ++
  (headerPieces "MAN".toList manDiscover ++
  (numberPieces "MX: ".toList m.mx.toUInt32 ++
  (([Str.bytes "ST".toList] ++ ([[58, 32]] ++ (targetPieces m.st ++ [[13, 10]]))) ++
  (m.userAgent.elim [] (headerPieces "USER-AGENT".toList) ++
  (m.cpfn.elim [] (headerPieces "CPFN.UPNP.ORG".toList) ++
  (m.cpuuid.elim [] (headerPieces "CPUUID.UPNP.ORG".toList) ++
  ((m.tcpport.elim [] fun p => numberPieces "TCPPORT.UPNP.ORG: ".toList p.toUInt32) ++
  [[13, 10]]))))))))

/-- What the encoder leaves at the start of a buffer: the whole text where it
fits, else the writes before the first with no room. -/
def MSearchRef.written (m : MSearchRef) (room : Nat) : List UInt8 := Cursor.fitting room m.pieces

abbrev Writes (w : Writer) (pieces : List (List UInt8)) : Prop :=
  w = Cursor.writeAll EncodeError.bufferTooSmall pieces

theorem writes_writeBytes (b : List UInt8) : Writes (writeBytes b) [b] := by
  simp [Writes, writeBytes, Cursor.writeAll]

theorem writes_writeStr (s : Str) : Writes (writeStr s) [s.bytes] := writes_writeBytes _

theorem writes_bind {v w : Writer} {a b : List (List UInt8)} (hv : Writes v a) (hw : Writes w b) :
    Writes (v >>= fun _ => w) (a ++ b) := by
  rw [Writes, hv, hw]
  exact Cursor.writeAll_append _ a b

theorem writes_writeHeader (name value : Str) :
    Writes (writeHeader name value) (headerPieces name value) :=
  writes_bind (writes_writeStr name) (writes_bind (writes_writeBytes [58, 32])
    (writes_bind (writes_writeStr value) (writes_writeBytes [13, 10])))

theorem writes_writeNumber (label : Str) (n : UInt32) :
    Writes (writeNumber label n) (numberPieces label n) :=
  writes_bind (writes_writeStr label) (writes_bind (writes_writeStr (u32ToStr n))
    (writes_writeBytes [13, 10]))

theorem writes_whenSome {β : Type} {w : β → Writer} {pieces : β → List (List UInt8)}
    (h : ∀ b, Writes (w b) (pieces b)) (o : Option β) :
    Writes (whenSome o w) (o.elim [] pieces) := by
  cases o with
  | none => rfl
  | some b => exact h b

theorem writes_writeTarget (t : TargetRef) : Writes (writeTarget t) (targetPieces t) := by
  cases t with
  | all => exact writes_writeStr _
  | rootDevice => exact writes_writeStr _
  | uuid u => exact writes_bind (writes_writeStr _) (writes_writeStr u)
  | deviceType d k v | serviceType d k v =>
      exact writes_bind (writes_writeStr _) (writes_bind (writes_writeStr d)
        (writes_bind (writes_writeStr _) (writes_bind (writes_writeStr k)
        (writes_bind (writes_writeBytes [58]) (writes_writeStr (u32ToStr v))))))

theorem writes_encodeTarget (header : Str) (t : TargetRef) : Writes (encodeTarget header t)
    ([header.bytes] ++ ([[58, 32]] ++ (targetPieces t ++ [[13, 10]]))) :=
  writes_bind (writes_writeStr header) (writes_bind (writes_writeBytes [58, 32])
    (writes_bind (writes_writeTarget t) (writes_writeBytes [13, 10])))

theorem writes_msearchWriter (m : MSearchRef) : Writes (msearchWriter m) m.pieces :=
  writes_bind (writes_writeStr _) (writes_bind (writes_writeHeader _ _)
    (writes_bind (writes_writeHeader _ _) (writes_bind (writes_writeNumber _ _)
    (writes_bind (writes_encodeTarget _ _)
    (writes_bind (writes_whenSome (fun _ => writes_writeHeader _ _) _)
    (writes_bind (writes_whenSome (fun _ => writes_writeHeader _ _) _)
    (writes_bind (writes_whenSome (fun _ => writes_writeHeader _ _) _)
    (writes_bind (writes_whenSome (fun _ => writes_writeNumber _ _) _)
    (writes_writeBytes [13, 10])))))))))

theorem buf_encodeMsearchInto {n : Nat} (m : MSearchRef) (buf : Buffer n) :
    (encodeMsearchInto m buf).2.toList =
      m.written n ++ buf.toList.drop (m.written n).length := by
  have h : (encodeMsearchInto m buf).2.toList =
      (Cursor.encodeInto (msearchWriter m) buf.toList).2 := rfl
  rw [h, writes_msearchWriter m, Cursor.buf_encodeInto_writeAll, buf.length_eq]
  rfl

namespace ControlPoint
variable {M : Type}

/-! The queue and its books -/

/-- The payloads that wait, in the order they were enqueued. -/
def waiting (cp : ControlPoint M) : List (List UInt8) :=
  cp.pendingTransmits.toList.map fun p => cp.scratchBuf.toList.take p.2

/-- `poll_transmit`, as far as the payload goes. -/
def pollPayload (bufLen : Nat) (cp : ControlPoint M) : Option (List UInt8) × ControlPoint M :=
  ((cp.pollTransmit bufLen).1.map Transmit.payload, (cp.pollTransmit bufLen).2)

/-- Polling takes the last entry, whole where the buffer is large enough. -/
theorem pollPayload_takesLast {bufLen : Nat} (hbuf : 512 ≤ bufLen) :
    Ledger.TakesLast waiting (pollPayload (M := M) bufLen) fun _ => True where
  empty cp _ h := by
    unfold pollPayload pollTransmit
    rw [BoundedVec.pop_eq_none.mpr (List.map_eq_nil_iff.mp h)]
    rfl
  last cp q x _ h := by
    obtain ⟨es, es', hes, rfl, hx⟩ := List.map_eq_append_iff.mp h
    obtain ⟨⟨dest, len⟩, rfl, rfl⟩ := List.map_eq_singleton_iff.mp hx
    obtain ⟨rest, hrest, hpoll⟩ := pollTransmit_last hes hbuf
    refine ⟨{ cp with pendingTransmits := rest }, ?_, ?_, trivial⟩
    · rw [pollPayload, hpoll]
      rfl
    · rw [waiting, hrest]

end ControlPoint

/-- The payload that an operation enqueues. -/
def CpOp.enqueued {M : Type} (op : CpOp) (cp : ControlPoint M) : List (List UInt8) :=
  match op with
  | .search target mx _ =>
      match (encodeMsearchInto (cp.searchMessage target mx) cp.scratchBuf).1 with
      | .ok enc => if cp.pendingTransmits.isFull then [] else [enc]
      | .error _ => []
  | _ => []

/-- The payload that an operation returns. -/
def CpOp.returned {M : Type} (op : CpOp) (cp : ControlPoint M) : List (List UInt8) :=
  match op with
  | .pollTransmit bufLen => (cp.pollPayload bufLen).1.toList
  | _ => []

/-- What a search writes agrees with every payload that waits. -/
def CpOp.AgreesWithWaiting {M : Type} (op : CpOp) (cp : ControlPoint M) : Prop :=
  match op with
  | .search target mx _ =>
      ∀ payload ∈ cp.waiting, Cursor.Agree ((cp.searchMessage target mx).written 512) payload
  | _ => True

/-- Polls are made with room for every datagram. -/
def CpOp.PollsWhole : CpOp → Prop
  | .pollTransmit bufLen => 512 ≤ bufLen
  | _ => True

section
variable (httparse : List UInt8 → Nat → Outcome) {M : Type}
  [MapOps (BoundedStr cacheUsn) CpEntry M]

/-- A step of the control point and of the books of its queue. -/
def CpOp.stepLedger (op : CpOp) (l : Ledger (ControlPoint M) (List UInt8)) :
    Option (Ledger (ControlPoint M) (List UInt8)) :=
  (op.step httparse l.state).map fun cp =>
    l.enter cp (op.enqueued l.state) (op.returned l.state)

end

/-- Polling now until nothing is left returns what was enqueued and not returned
before, each once. -/
def ControlPoint.QueueIntact {M : Type} (l : Ledger (ControlPoint M) (List UInt8)) : Prop :=
  ∀ bufLen, 512 ≤ bufLen →
    (l.returned ++ Ledger.drain (ControlPoint.pollPayload bufLen) 4 l.state).Perm l.accepted

namespace ControlPoint

theorem length_waiting_le {M : Type} (cp : ControlPoint M) : cp.waiting.length ≤ 4 := by
  rw [waiting, List.length_map]
  exact cp.pendingTransmits.length_le

theorem queueIntact_iff {M : Type} {l : Ledger (ControlPoint M) (List UInt8)} :
    QueueIntact l ↔ l.Balanced waiting := by
  have hbalanced : ∀ bufLen, 512 ≤ bufLen →
      ((l.returned ++ Ledger.drain (pollPayload bufLen) 4 l.state).Perm l.accepted ↔
        l.Balanced waiting) := fun bufLen hbuf =>
    (pollPayload_takesLast hbuf).balanced_iff trivial l.state.length_waiting_le
  exact ⟨fun h => (hbalanced 512 (Nat.le_refl _)).mp (h 512 (Nat.le_refl _)),
    fun h bufLen hbuf => (hbalanced bufLen hbuf).mpr h⟩

/-! Steps that leave the queue alone -/

structure SameQueue {M : Type} (cp cp' : ControlPoint M) : Prop where
  pending : cp'.pendingTransmits = cp.pendingTransmits
  scratch : cp'.scratchBuf = cp.scratchBuf

theorem SameQueue.refl {M : Type} (cp : ControlPoint M) : SameQueue cp cp := ⟨rfl, rfl⟩

theorem SameQueue.trans {M : Type} {a b c : ControlPoint M} (h : SameQueue a b)
    (h' : SameQueue b c) : SameQueue a c :=
  ⟨h'.pending.trans h.pending, h'.scratch.trans h.scratch⟩

theorem SameQueue.waiting {M : Type} {cp cp' : ControlPoint M} (h : SameQueue cp cp') :
    cp'.waiting = cp.waiting := by
  rw [ControlPoint.waiting, ControlPoint.waiting, h.pending, h.scratch]

section
variable {M : Type} [MapOps (BoundedStr cacheUsn) CpEntry M]

theorem sameQueue_reschedule (cp : ControlPoint M) (now : Instant) :
    SameQueue cp (cp.rescheduleCacheExpiry now) := by
  unfold rescheduleCacheExpiry
  split
  · exact .refl cp
  · split <;> exact ⟨rfl, rfl⟩

theorem sameQueue_handleMessage {cp cp' : ControlPoint M} {now : Instant} {msg : MessageRef}
    (h : cp.handleMessage now msg = some cp') : SameQueue cp cp' := by
  rw [handleMessage_eq] at h
  split at h
  · rename_i usn loc age _
    obtain ⟨b, cache, -, rfl⟩ := announced_eq_some h
    have hr := sameQueue_reschedule { cp with
      cache, events := pushSearchHit cp.events (usnToString usn).toStr loc age } now
    exact ⟨hr.pending, hr.scratch⟩
  · cases h
    rw [departed_eq]
    exact ⟨rfl, rfl⟩
  · cases h
    exact .refl cp

theorem sameQueue_onTimer {cp cp' : ControlPoint M} {now : Instant} {k : TimerKind}
    (h : onTimer now cp k = some cp') : SameQueue cp cp' := by
  cases k with
  | searchRetransmit =>
      unfold onTimer at h
      dsimp only at h
      split at h
      · obtain ⟨t, -, ht⟩ := Option.bind_eq_some_iff.mp h
        obtain rfl := (Option.some.inj ht).symm
        exact ⟨rfl, rfl⟩
      · obtain rfl := (Option.some.inj h).symm
        exact ⟨rfl, rfl⟩
  | cacheExpiry =>
      obtain rfl := (Option.some.inj h).symm
      have hr := sameQueue_reschedule { cp with
        cache := (cp.cache.expire now pushExpired cp.events).1
        events := (cp.cache.expire now pushExpired cp.events).2 } now
      exact ⟨hr.pending, hr.scratch⟩
  | aliveRefresh | initialAlive | searchResponse =>
      cases h
      exact .refl cp

theorem sameQueue_handleTimeout {cp cp' : ControlPoint M} {now : Instant}
    (h : cp.handleTimeout now = some cp') : SameQueue cp cp' := by
  have hfold : ∀ (ks : List TimerKind) (a : ControlPoint M),
      ks.foldlM (onTimer now) a = some cp' → SameQueue a cp' := by
    intro ks
    induction ks with
    | nil =>
        intro a ha
        cases ha
        exact .refl _
    | cons k ks ih =>
        intro a ha
        obtain ⟨b, hb, hrest⟩ := Option.bind_eq_some_iff.mp (by simpa using ha)
        exact (sameQueue_onTimer hb).trans (ih b hrest)
  have hs := hfold _ _ h
  exact ⟨hs.pending, hs.scratch⟩

/-- Only searches and polls touch the queue. -/
theorem sameQueue_step {httparse : List UInt8 → Nat → Outcome} {op : CpOp}
    {cp cp' : ControlPoint M} (hsearch : ∀ target mx now, op ≠ .search target mx now)
    (hpoll : ∀ bufLen, op ≠ .pollTransmit bufLen) (h : op.step httparse cp = some cp') :
    SameQueue cp cp' := by
  cases op with
  | search target mx now => exact absurd rfl (hsearch target mx now)
  | pollTransmit bufLen => exact absurd rfl (hpoll bufLen)
  | handleDatagram now source payload =>
      simp only [CpOp.step, handleDatagram] at h
      split at h
      · cases h
        exact .refl cp
      · exact sameQueue_handleMessage h
  | handleTimeout now => exact sameQueue_handleTimeout h
  | pollEvent =>
      cases h
      unfold pollEvent
      split <;> exact ⟨rfl, rfl⟩
  | pollTimeout =>
      cases h
      exact .refl cp

end

/-! Searches and polls -/

section
variable {M : Type}

theorem enqueued_of_fits {cp : ControlPoint M} {target : TargetRef} {mx : UInt8}
    (now : Instant) (hfits : (cp.searchMessage target mx).wire.length ≤ 512)
    (hroom : cp.pendingTransmits.toList.length < 4) :
    (CpOp.search target mx now).enqueued cp = [(cp.searchMessage target mx).wire] := by
  have hok : (encodeMsearchInto (cp.searchMessage target mx) cp.scratchBuf).1 =
      .ok (cp.searchMessage target mx).wire :=
    congrArg Prod.fst (Cursor.encodeInto_of_fits
      (emits_msearchWriter (cp.searchMessage target mx))
      (hfits.trans_eq cp.scratchBuf.length_eq.symm))
  have hnot : cp.pendingTransmits.isFull = false := by
    rw [Bool.eq_false_iff, ne_eq, BoundedVec.isFull_iff]
    omega
  rw [CpOp.enqueued, hok]
  dsimp only
  rw [hnot]
  rfl

/-- After a search the old entries read what the write left of them, and the new
one reads the encoded message. -/
theorem waiting_search {cp cp' : ControlPoint M} {target : TargetRef} {mx : UInt8}
    {now : Instant} (h : cp.search target mx now = some cp') :
    cp'.waiting = (cp.pendingTransmits.toList.map fun p =>
        ((cp.searchMessage target mx).written 512 ++
          cp.scratchBuf.toList.drop ((cp.searchMessage target mx).written 512).length).take p.2) ++
      (CpOp.search target mx now).enqueued cp := by
  obtain ⟨timers, rfl⟩ := search_eq_some h
  have hbuf := buf_encodeMsearchInto (cp.searchMessage target mx) cp.scratchBuf
  have hwait : ({ cp.enqueueMsearch target mx with
      timers, retransmitCount := 0, activeMx := clampMx mx } : ControlPoint M).waiting =
        (cp.enqueueMsearch target mx).waiting := rfl
  rw [hwait, ← hbuf, CpOp.enqueued]
  by_cases hfits : (cp.searchMessage target mx).wire.length ≤ 512
  · have henc := Cursor.encodeInto_of_fits (emits_msearchWriter (cp.searchMessage target mx))
      (hfits.trans_eq cp.scratchBuf.length_eq.symm)
    have hok : (encodeMsearchInto (cp.searchMessage target mx) cp.scratchBuf).1 =
        .ok (cp.searchMessage target mx).wire := congrArg Prod.fst henc
    have hwire : (encodeMsearchInto (cp.searchMessage target mx) cp.scratchBuf).2.toList.take
        (cp.searchMessage target mx).wire.length = (cp.searchMessage target mx).wire := by
      rw [show (encodeMsearchInto (cp.searchMessage target mx) cp.scratchBuf).2.toList = _ from
        congrArg Prod.snd henc, List.take_left]
    rw [enqueueMsearch_eq, hok]
    dsimp only
    rw [ControlPoint.waiting]
    dsimp only
    rw [BoundedVec.toList_pushOrDrop]
    by_cases hfull : cp.pendingTransmits.toList.length < 4
    · have hnot : cp.pendingTransmits.isFull = false := by
        rw [Bool.eq_false_iff, ne_eq, BoundedVec.isFull_iff]
        omega
      rw [if_pos hfull, hnot, List.map_append, List.map_singleton, hwire]
      rfl
    · have his : cp.pendingTransmits.isFull = true := BoundedVec.isFull_iff.mpr (by omega)
      rw [if_neg hfull, his, if_pos rfl, List.append_nil]
  · have herr : (encodeMsearchInto (cp.searchMessage target mx) cp.scratchBuf).1 =
        .error .bufferTooSmall :=
      (Cursor.encodeInto_of_not_fits (emits_msearchWriter (cp.searchMessage target mx))
        (cp.scratchBuf.length_eq.trans_lt (Nat.lt_of_not_le hfits))).1
    rw [enqueueMsearch_eq, herr, List.append_nil]
    rfl

/-- Reading other bytes at the same lengths yields the same payloads in some
order only where each entry reads the same. -/
theorem perm_map_take_iff {α : Type} {s s' : List α} (hlen : s'.length = s.length)
    (es : List (Destination × Nat)) :
    (es.map fun p => s'.take p.2).Perm (es.map fun p => s.take p.2) ↔
      ∀ p ∈ es, s'.take p.2 = s.take p.2 := by
  constructor
  · intro h p hp
    have hmem : s'.take p.2 ∈ es.map fun p => s.take p.2 :=
      h.subset (List.mem_map_of_mem hp)
    obtain ⟨q, -, hq⟩ := List.mem_map.mp hmem
    have hmin := congrArg List.length hq
    rw [List.length_take, List.length_take, hlen] at hmin
    rw [← hq]
    by_cases hle : p.2 ≤ s.length
    · by_cases hqle : q.2 ≤ s.length
      · rw [Nat.min_eq_left hle, Nat.min_eq_left hqle] at hmin
        rw [hmin]
      · rw [List.take_of_length_le (by omega), List.take_of_length_le (by omega)]
    · rw [List.take_of_length_le (by omega), List.take_of_length_le (by omega)]
  · intro h
    rw [List.map_congr_left h]

theorem length_written_le (m : MSearchRef) (room : Nat) : (m.written room).length ≤ room :=
  Cursor.length_fitting_le room m.pieces

theorem balanced_search_iff {cp cp' : ControlPoint M} {target : TargetRef} {mx : UInt8}
    {now : Instant} (h : cp.search target mx now = some cp') :
    cp'.waiting.Perm (cp.waiting ++ (CpOp.search target mx now).enqueued cp) ↔
      (CpOp.search target mx now).AgreesWithWaiting cp := by
  have hle := (length_written_le (cp.searchMessage target mx) 512).trans_eq
    cp.scratchBuf.length_eq.symm
  have hlen : ((cp.searchMessage target mx).written 512 ++ cp.scratchBuf.toList.drop
      ((cp.searchMessage target mx).written 512).length).length =
        cp.scratchBuf.toList.length := by
    rw [List.length_append, List.length_drop]
    omega
  rw [waiting_search h, List.perm_append_right_iff, waiting, perm_map_take_iff hlen,
    CpOp.AgreesWithWaiting, waiting, List.forall_mem_map]
  exact forall₂_congr fun p _ => Cursor.take_overwritten_iff hle p.2

end

theorem balanced_step {httparse : List UInt8 → Nat → Outcome} {M : Type}
    [MapOps (BoundedStr cacheUsn) CpEntry M] (op : CpOp)
    (l l' : Ledger (ControlPoint M) (List UInt8)) (hop : op.PollsWhole)
    (hl : l.Balanced waiting) (h : op.stepLedger httparse l = some l') :
    l'.Balanced waiting ↔ op.AgreesWithWaiting l.state := by
  obtain ⟨cp, hcp, rfl⟩ := Option.map_eq_some_iff.mp h
  rw [Ledger.balanced_enter_iff hl]
  have hquiet : SameQueue l.state cp → op.enqueued l.state = [] → op.returned l.state = [] →
      op.AgreesWithWaiting l.state →
      ((op.returned l.state ++ cp.waiting).Perm (l.state.waiting ++ op.enqueued l.state) ↔
        op.AgreesWithWaiting l.state) := by
    intro hs he hr ha
    rw [he, hr, hs.waiting, List.nil_append, List.append_nil]
    exact iff_of_true (List.Perm.refl _) ha
  cases op with
  | search target mx now => exact balanced_search_iff hcp
  | pollTransmit bufLen =>
      cases hcp
      have henq : (CpOp.pollTransmit bufLen).enqueued l.state = [] := rfl
      rw [henq, List.append_nil]
      exact iff_of_true ((pollPayload_takesLast hop).perm trivial) trivial
  | handleDatagram | handleTimeout | pollEvent | pollTimeout =>
      exact hquiet (sameQueue_step (fun _ _ _ => by simp) (fun _ => by simp) hcp) rfl rfl trivial

end ControlPoint

/-- In a run from the start, polled with large enough buffers, the queue is
intact in every state exactly when each search writes what agrees with every
payload that still waits. -/
theorem searches_intact_iff (httparse : List UInt8 → Nat → Outcome) {M : Type}
    [MapOps (BoundedStr cacheUsn) CpEntry M] (ua : Option Str) (ops : List CpOp)
    (hops : ∀ op ∈ ops, op.PollsWhole) :
    EveryState (CpOp.stepLedger httparse) ControlPoint.QueueIntact ops
        (.start (ControlPoint.new ua : ControlPoint M)) ↔
      EveryStep (CpOp.stepLedger httparse) (fun op l => op.AgreesWithWaiting l.state) ops
        (.start (ControlPoint.new ua : ControlPoint M)) := by
  have hprop : (ControlPoint.QueueIntact (M := M)) = Ledger.Balanced ControlPoint.waiting :=
    funext fun l => propext ControlPoint.queueIntact_iff
  have hinv : ∀ (op : CpOp) (l l' : Ledger (ControlPoint M) (List UInt8)), op.PollsWhole → True →
      op.stepLedger httparse l = some l' → True := fun _ _ _ _ _ _ => trivial
  rw [hprop]
  refine everyState_iff_everyStep_of hinv (fun op l l' hop _ => ControlPoint.balanced_step op l l' hop)
    hops trivial ?_
  exact List.Perm.refl _

/-- A drained queue agrees with every write. -/
theorem CpOp.agreesWithWaiting_of_drained {M : Type} {cp : ControlPoint M}
    (h : cp.waiting = []) (op : CpOp) : op.AgreesWithWaiting cp := by
  cases op with
  | search target mx now =>
      rw [AgreesWithWaiting, h]
      rintro _ ⟨⟩
  | _ => trivial

theorem searches_intact_iff_sample :
    EveryState (CpOp.stepLedger splitBlock) ControlPoint.QueueIntact
      [.search .rootDevice 1 0, .pollTransmit 512]
      (.start (ControlPoint.new none : ControlPoint CpIndexMap)) := by
  refine (searches_intact_iff splitBlock none [.search .rootDevice 1 0, .pollTransmit 512] ?_).mpr
    fun l _ => ⟨CpOp.agreesWithWaiting_of_drained rfl _, fun l' _ => ⟨trivial, trivial⟩⟩
  rintro op (_ | ⟨_, _ | ⟨_, ⟨⟩⟩⟩)
  · trivial
  · exact Nat.le_refl 512

/-- Two searches wait, for a longer and a shorter text. -/
def crossedSearches : List CpOp := [.search .rootDevice 1 0, .search .all 1 0]

/-- The longer search comes back with the start of the shorter one: a datagram
that was never enqueued. -/
theorem second_search_overwrites : ∃ l,
    run (CpOp.stepLedger splitBlock) crossedSearches
      (.start (ControlPoint.new none : ControlPoint CpIndexMap)) = some l ∧
      l.returned = [] ∧ ∃ payload ∈ Ledger.drain (ControlPoint.pollPayload 512) 4 l.state,
        payload ∉ l.accepted := by
  let start : ControlPoint CpIndexMap := ControlPoint.new none
  have hfits₁ : (start.searchMessage .rootDevice 1).wire.length ≤ 512 := by decide
  have hfits₂ : (start.searchMessage .all 1).wire.length ≤ 512 := by decide
  obtain ⟨cp₁, h₁, hsent⟩ := start.search_sends .rootDevice 1 0 rfl hfits₁ (by decide)
  obtain ⟨-, hpending, hwire⟩ := ControlPoint.drained_search_sends rfl h₁ hsent
  have hmsg : cp₁.searchMessage .all 1 = start.searchMessage .all 1 := by
    rw [ControlPoint.searchMessage_of_search h₁]
  obtain ⟨cp₂, h₂⟩ : ∃ cp₂, cp₁.search .all 1 0 = some cp₂ := by
    obtain ⟨timers, buf, h⟩ := cp₁.search_of_fits .all 1 0 (hmsg ▸ hfits₂) (by decide)
    exact ⟨_, h⟩
  have henq₁ : (CpOp.search .rootDevice 1 0).enqueued start =
      [(start.searchMessage .rootDevice 1).wire] :=
    ControlPoint.enqueued_of_fits 0 hfits₁ (by decide)
  have henq₂ : (CpOp.search .all 1 0).enqueued cp₁ = [(start.searchMessage .all 1).wire] := by
    rw [← hmsg]
    exact ControlPoint.enqueued_of_fits 0 (hmsg ▸ hfits₂) (by rw [hpending]; decide)
  obtain ⟨payload, hwait, hnew⟩ : ∃ payload,
      cp₂.waiting = [payload, (start.searchMessage .all 1).wire] ∧
        payload ∉ [(start.searchMessage .rootDevice 1).wire, (start.searchMessage .all 1).wire] := by
    have hwait := ControlPoint.waiting_search h₂
    rw [hpending, henq₂, hmsg] at hwait
    refine ⟨_, hwait, ?_⟩
    dsimp only
    simp only [List.mem_cons, List.not_mem_nil, or_false, not_or]
    constructor
    · intro he
      have hagree := (Cursor.take_overwritten_iff (by
        rw [cp₁.scratchBuf.length_eq]
        exact ControlPoint.length_written_le _ 512) _).mp (he.trans hwire.symm)
      rw [hwire] at hagree
      exact absurd hagree (by decide)
    · intro he
      have hlen := congrArg List.length he
      rw [List.length_take, List.length_append, List.length_drop, cp₁.scratchBuf.length_eq] at hlen
      exact absurd hlen (by decide)
  have hstep₁ : (CpOp.search .rootDevice 1 0).stepLedger splitBlock (.start start) =
      some ⟨cp₁, [(start.searchMessage .rootDevice 1).wire], []⟩ := by
    have h : (CpOp.search .rootDevice 1 0).step splitBlock start = some cp₁ := h₁
    simp only [CpOp.stepLedger, Ledger.start, h, Option.map_some, Ledger.enter, henq₁]
    rfl
  have hstep₂ : (CpOp.search .all 1 0).stepLedger splitBlock
      ⟨cp₁, [(start.searchMessage .rootDevice 1).wire], []⟩ = some ⟨cp₂,
        [(start.searchMessage .rootDevice 1).wire, (start.searchMessage .all 1).wire], []⟩ := by
    have h : (CpOp.search .all 1 0).step splitBlock cp₁ = some cp₂ := h₂
    simp only [CpOp.stepLedger, h, Option.map_some, Ledger.enter, henq₂]
    rfl
  refine ⟨⟨cp₂, [(start.searchMessage .rootDevice 1).wire, (start.searchMessage .all 1).wire], []⟩,
    ?_, rfl, payload, ?_, hnew⟩
  · rw [crossedSearches, run_cons, hstep₁, Option.bind_some, run_cons, hstep₂, Option.bind_some,
      run_nil]
  · rw [(ControlPoint.pollPayload_takesLast (Nat.le_refl _)).drain_eq trivial
      cp₂.length_waiting_le, hwait, List.mem_reverse]
    exact List.mem_cons_self ..

end RustyCastle.Ssdp
