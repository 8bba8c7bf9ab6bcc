import RustyCastle.Foundation.Beacon
import RustyCastle.Server.Discovery
import RustyCastle.Ssdp.DeviceServing
import RustyCastle.Ssdp.TargetPrinters

/-!
The loop that announces the server. A turn looks at the timers, sends what they enqueued, waits for
a datagram and sends the answers. Seen from outside the loop is a beacon: its round is the alive
notifications of the registered targets, and what it sends besides are the answers to searches.
-/

namespace RustyCastle.Server
open Foundation Foundation.HeaderBlock Foundation.Runs RustyCastle.Ssdp

/-- A datagram with the address it was sent to. -/
abbrev Sent := SocketAddr × List UInt8

/-- 239.255.255.250:1900 -/
def ssdpMulticast : SocketAddr := .v4 0xEFFFFFFA 1900

/-- The size of the buffers that the loop receives to and sends from. -/
def ssdpBufLen : Nat := 2048

/-- What `recv_from` returns; a timeout of the socket is no error. -/
inductive Received where
  | nothing
  | datagram (now : Instant) (source : SocketAddr) (payload : List UInt8)
  | failed (err : IoError)

/-- What a turn meets: the clock, the errors of `send_to` after what was sent in the turn, and what
is received. -/
structure Turn where
  now : Instant
  refuses : List Sent → Sent → Option IoError
  received : Received

/-- The state of the loop, with what was sent in each turn. -/
structure SsdpLoop where
  device : Device
  history : List (Instant × List Sent)

/-- The address that a datagram is sent to. There is none for the IPv6 groups. -/
def addressed (tx : Datagram) : Option Sent :=
  match tx.1 with
  | .multicastV4 => some (ssdpMulticast, tx.2)
  | .unicast addr => some (addr, tx.2)
  | .multicastV6LinkLocal | .multicastV6SiteLocal => none

def sendTransmit (refuses : List Sent → Sent → Option IoError) (sent : List Sent) (tx : Transmit) :
    Except IoError (List Sent) :=
  match addressed (tx.dest, tx.payload) with
  | none => .ok sent
  | some x =>
      match refuses sent x with
      | some err => .error err
      | none => .ok (sent ++ [x])

theorem length_pollTransmit {d d' : Device} {bufLen : Nat} {tx : Transmit}
    (h : d.pollTransmit bufLen = (some tx, d')) :
    d'.pendingTransmits.toList.length < d.pendingTransmits.toList.length := by
  unfold Device.pollTransmit at h
  split at h
  · cases h
  · rename_i slice rest hpop
    obtain ⟨-, rfl⟩ := Prod.mk.inj h
    rw [BoundedVec.pop_eq_some hpop, List.length_append, List.length_singleton]
    exact Nat.lt_succ_self _

theorem length_pollEvent {d d' : Device} {event : DeviceEvent}
    (h : d.pollEvent = (some event, d')) :
    d'.events.toList.length < d.events.toList.length := by
  unfold Device.pollEvent at h
  split at h
  · cases h
  · rename_i e rest hpop
    obtain ⟨-, rfl⟩ := Prod.mk.inj h
    rw [BoundedVec.popFront_eq_some hpop]
    exact Nat.lt_succ_self _

def drainSsdp (refuses : List Sent → Sent → Option IoError) (device : Device) (sent : List Sent) :
    Except IoError (Device × List Sent) :=
  match _h : device.pollTransmit ssdpBufLen with
  | (none, _) => .ok (device, sent)
  | (some tx, device') =>
      match sendTransmit refuses sent tx with
      | .error err => .error err
      | .ok sent => drainSsdp refuses device' sent
termination_by device.pendingTransmits.toList.length
decreasing_by exact length_pollTransmit (by assumption)

/-- The waiting events, oldest first, and the device without them. -/
def drainSsdpEvents (device : Device) : List DeviceEvent × Device :=
  match _h : device.pollEvent with
  | (none, device) => ([], device)
  | (some event, device') => (event :: (drainSsdpEvents device').1, (drainSsdpEvents device').2)
termination_by device.events.toList.length
decreasing_by all_goals exact length_pollEvent (by assumption)

/-- One turn of the loop. There is none where a call on the device panics, and an error of the
socket ends the loop. -/
def ssdpTurn (httparse : List UInt8 → Nat → Outcome) (turn : Turn) (s : SsdpLoop) :
    Option (Except IoError SsdpLoop) := do
  let device ← s.device.handleTimeout turn.now
  match drainSsdp turn.refuses device [] with
  | .error err => some (.error err)
  | .ok (device, sent) =>
      match turn.received with
      | .nothing => some (.ok ⟨device, s.history ++ [(turn.now, sent)]⟩)
      | .failed err => some (.error err)
      | .datagram now source payload =>
          let device ← device.handleDatagram httparse now source (payload.take ssdpBufLen)
          match drainSsdp turn.refuses (drainSsdpEvents device).2 sent with
          | .error err => some (.error err)
          | .ok (device, sent) => some (.ok ⟨device, s.history ++ [(turn.now, sent)]⟩)

/-- A turn after which the loop goes on. -/
def ssdpStep (httparse : List UInt8 → Nat → Outcome) (turn : Turn) (s : SsdpLoop) :
    Option SsdpLoop :=
  (ssdpTurn httparse turn s).bind Except.toOption

/-- `run_ssdp` before its loop. -/
def ssdpStart (state : RuntimeState) (seed : UInt32) (now : Instant) : SsdpLoop where
  device := (ssdpDevice state seed).start now
  history := []

/-! Draining -/

theorem queue_pollEvent (d : Device) : d.pollEvent.2.queue = d.queue := by
  unfold Device.pollEvent
  split
  · rfl
  · rfl

theorem passes_drainSsdpEvents {d : Device} (hp : d.Packed) :
    Device.Passes d (drainSsdpEvents d).2 ∧ (drainSsdpEvents d).2.queue = d.queue := by
  fun_induction drainSsdpEvents d with
  | case1 d d' h =>
      have hd := Device.passes_pollEvent hp
      have hq := queue_pollEvent d
      rw [h] at hd hq
      exact ⟨hd, hq⟩
  | case2 d event d' h ih =>
      have hd := Device.passes_pollEvent hp
      have hq := queue_pollEvent d
      rw [h] at hd hq
      obtain ⟨hrest, hqueue⟩ := ih hd.packed
      exact ⟨hd.trans hrest, hqueue.trans hq⟩

theorem sendTransmit_eq_ok {refuses : List Sent → Sent → Option IoError} {sent sent' : List Sent}
    {tx : Transmit} (h : sendTransmit refuses sent tx = .ok sent') :
    sent' = sent ++ (addressed (tx.dest, tx.payload)).toList := by
  unfold sendTransmit at h
  split at h
  · rename_i hnone
    rw [hnone, ← Except.ok.inj h]
    exact (List.append_nil _).symm
  · rename_i x hx
    split at h
    · cases h
    · rw [hx, ← Except.ok.inj h]
      rfl

/-- A drain that ends well empties the queue, the last datagram first. -/
theorem drainSsdp_eq {refuses : List Sent → Sent → Option IoError} {d d' : Device}
    {sent sent' : List Sent} (hp : d.Packed) (hlen : ∀ x ∈ d.queue, x.2.length ≤ ssdpBufLen)
    (h : drainSsdp refuses d sent = .ok (d', sent')) :
    Device.Passes d d' ∧ d'.queue = [] ∧ sent' = sent ++ d.queue.reverse.filterMap addressed := by
  fun_induction drainSsdp refuses d sent with
  | case1 d sent d₁ hpoll =>
      obtain ⟨rfl, rfl⟩ := Prod.mk.inj (Except.ok.inj h)
      obtain ⟨hnone, -⟩ | ⟨q, dest, payload, rest, -, he, -, -⟩ :=
        Device.pollTransmit_cases hp ssdpBufLen
      · rw [hnone]
        exact ⟨.refl hp, rfl, (List.append_nil _).symm⟩
      · rw [hpoll] at he
        cases he
  | case2 d sent tx d₁ hpoll err hsend => cases h
  | case3 d sent tx d₁ hpoll sent₁ hsend ih =>
      have hpass := Device.passes_pollTransmit hp ssdpBufLen
      rw [hpoll] at hpass
      obtain ⟨-, he⟩ | ⟨q, dest, payload, rest, hq, he, -, hrest⟩ :=
        Device.pollTransmit_cases hp ssdpBufLen
      · rw [hpoll] at he
        cases he
      · have hfull : payload.length ≤ ssdpBufLen := hlen (dest, payload) (by rw [hq]; simp)
        rw [Nat.min_eq_left hfull, List.take_length] at he
        obtain ⟨htx, rfl⟩ := Prod.mk.inj (hpoll.symm.trans he)
        obtain rfl := Option.some.inj htx
        obtain ⟨hdone, hempty, hsent⟩ := ih hpass.packed
          (fun x hx => hlen x (by rw [hq]; exact List.mem_append_left _ (hrest ▸ hx))) h
        refine ⟨hpass.trans hdone, hempty, ?_⟩
        rw [hsent, hrest, sendTransmit_eq_ok hsend, hq, List.reverse_append, List.reverse_singleton,
          List.singleton_append, List.append_assoc]
        cases hx : addressed (dest, payload) with
        | none => rw [List.filterMap_cons_none hx, Option.toList_none, List.nil_append]
        | some x => rw [List.filterMap_cons_some hx, Option.toList_some, List.singleton_append]

theorem drainSsdp_returns {refuses : List Sent → Sent → Option IoError}
    (hrefuses : ∀ sent x, refuses sent x = none) (d : Device) (sent : List Sent) :
    ∃ r, drainSsdp refuses d sent = .ok r := by
  fun_induction drainSsdp refuses d sent with
  | case1 d sent d₁ hpoll => exact ⟨_, rfl⟩
  | case2 d sent tx d₁ hpoll err hsend =>
      unfold sendTransmit at hsend
      split at hsend
      · cases hsend
      · rw [hrefuses] at hsend
        cases hsend
  | case3 d sent tx d₁ hpoll sent₁ hsend ih => exact ih

/-! The loop as a beacon -/

def ssdpRound (d : Device) : List Sent := (d.aliveDatagrams .multicastV4).reverse.filterMap addressed

/-- What is sent for the datagram of a turn. -/
def ssdpAnswers (httparse : List UInt8 → Nat → Outcome) (d : Device) (turn : Turn) : List Sent :=
  match turn.received with
  | .datagram _ source payload =>
      (d.answersTo httparse source (payload.take ssdpBufLen)).reverse.filterMap addressed
  | .nothing | .failed _ => []

/-- The loop waits for the round at `t`, and nothing is left to send. -/
structure Waits (d₀ : Device) (t : Instant) (s : SsdpLoop) : Prop where
  awaits : Device.Awaits d₀ t s.device
  empty : s.device.queue = []

section
variable {httparse : List UInt8 → Nat → Outcome} {d₀ : Device}

theorem length_aliveDatagrams {x : Destination × List UInt8} {dest : Destination}
    (h : x ∈ d₀.aliveDatagrams dest) : x.2.length ≤ ssdpBufLen := by
  obtain ⟨t, -, rfl⟩ := List.mem_map.mp h
  exact (d₀.length_aliveNotify_le t).trans (by decide)

theorem length_answersTo {x : Destination × List UInt8} {source : SocketAddr} {payload : List UInt8}
    (h : x ∈ d₀.answersTo httparse source payload) : x.2.length ≤ ssdpBufLen := by
  unfold Device.answersTo at h
  split at h
  · obtain ⟨t, -, rfl⟩ := List.mem_map.mp h
    exact (d₀.length_searchResponse_le _ t).trans (by decide)
  · cases h

/-- The first half of a turn. -/
theorem Waits.timers {t : Instant} {s : SsdpLoop} (h : Waits d₀ t s)
    (hfits : d₀.aliveBytes ≤ 4096) {now : Instant} {d : Device}
    (hs : s.device.handleTimeout now = some d) : ∃ t', Device.Awaits d₀ t' d ∧
      (now < t ∧ t' = t ∧ d.queue = [] ∨ t ≤ now ∧ d.queue = d₀.aliveDatagrams .multicastV4 ∧
        now + min (Duration.fromMillis 100) d₀.aliveInterval ≤ t' ∧ t' ≤ now + d₀.longestGap) := by
  by_cases hle : t ≤ now
  · obtain ⟨hq, t', hawaits, hlow, hhigh⟩ := h.awaits.handleTimeout_due h.empty hfits hle hs
    exact ⟨t', hawaits, .inr ⟨hle, hq, hlow, hhigh⟩⟩
  · have hlt := Nat.lt_of_not_le hle
    obtain ⟨hawaits, hq⟩ := h.awaits.handleTimeout_notDue hlt hs
    exact ⟨t, hawaits, .inl ⟨hlt, rfl, hq.trans h.empty⟩⟩

end

/-- What a turn does after which the loop goes on. -/
theorem ssdpStep_cases {httparse : List UInt8 → Nat → Outcome} {turn : Turn} {s s' : SsdpLoop}
    (h : ssdpStep httparse turn s = some s') : ∃ d₁ d₂ sent,
      s.device.handleTimeout turn.now = some d₁ ∧ drainSsdp turn.refuses d₁ [] = .ok (d₂, sent) ∧
      (turn.received = .nothing ∧ s' = ⟨d₂, s.history ++ [(turn.now, sent)]⟩ ∨
        ∃ now source payload d₃ d₄ sent', turn.received = .datagram now source payload ∧
          d₂.handleDatagram httparse now source (payload.take ssdpBufLen) = some d₃ ∧
          drainSsdp turn.refuses (drainSsdpEvents d₃).2 sent = .ok (d₄, sent') ∧
          s' = ⟨d₄, s.history ++ [(turn.now, sent')]⟩) := by
  obtain ⟨r, hr, hok⟩ := Option.bind_eq_some_iff.mp h
  obtain ⟨d₁, h₁, hr⟩ := Option.bind_eq_some_iff.mp hr
  cases h₂ : drainSsdp turn.refuses d₁ [] with
  | error err =>
      rw [h₂] at hr
      obtain rfl := Option.some.inj hr
      cases hok
  | ok x =>
      obtain ⟨d₂, sent⟩ := x
      rw [h₂] at hr
      refine ⟨d₁, d₂, sent, h₁, h₂, ?_⟩
      cases hrec : turn.received with
      | nothing =>
          rw [hrec] at hr
          obtain rfl := Option.some.inj hr
          exact .inl ⟨rfl, (Option.some.inj hok).symm⟩
      | failed err =>
          rw [hrec] at hr
          obtain rfl := Option.some.inj hr
          cases hok
      | datagram now source payload =>
          rw [hrec] at hr
          obtain ⟨d₃, h₃, hr⟩ := Option.bind_eq_some_iff.mp hr
          cases h₄ : drainSsdp turn.refuses (drainSsdpEvents d₃).2 sent with
          | error err =>
              rw [h₄] at hr
              obtain rfl := Option.some.inj hr
              cases hok
          | ok y =>
              obtain ⟨d₄, sent'⟩ := y
              rw [h₄] at hr
              obtain rfl := Option.some.inj hr
              exact .inr ⟨now, source, payload, d₃, d₄, sent', rfl, h₃, h₄, (Option.some.inj hok).symm⟩

section
variable {httparse : List UInt8 → Nat → Outcome} {d₀ : Device}

/-- A turn is one of the beacon: nothing that it enqueues is dropped or left behind. -/
theorem Waits.turn {t : Instant} {s s' : SsdpLoop} (h : Waits d₀ t s)
    (hfits : d₀.aliveBytes ≤ 4096) {turn : Turn} (hs : ssdpStep httparse turn s = some s') :
    ∃ t', Waits d₀ t' s' ∧ Beacon.Step Turn.now (ssdpAnswers httparse d₀) (ssdpRound d₀)
      (min (Duration.fromMillis 100) d₀.aliveInterval) d₀.longestGap turn ⟨t, s.history⟩
      ⟨t', s'.history⟩ := by
  obtain ⟨d₁, d₂, sent, h₁, h₂, hrest⟩ := ssdpStep_cases hs
  obtain ⟨t', hawaits, hround⟩ := h.timers hfits h₁
  have hlen : ∀ x ∈ d₁.queue, x.2.length ≤ ssdpBufLen := by
    obtain ⟨-, -, hq⟩ | ⟨-, hq, -⟩ := hround
    · rw [hq]
      nofun
    · rw [hq]
      exact fun x hx => length_aliveDatagrams hx
  obtain ⟨hpass, hempty, hsent⟩ := drainSsdp_eq hawaits.packed hlen h₂
  have hawaits := hawaits.passes hpass
  have hturn : Waits d₀ t' s' ∧
      s'.history = s.history ++ [(turn.now, sent ++ ssdpAnswers httparse d₀ turn)] := by
    obtain ⟨hrec, rfl⟩ | ⟨now, source, payload, d₃, d₄, sent', hrec, h₃, h₄, rfl⟩ := hrest
    · rw [ssdpAnswers, hrec, List.append_nil]
      exact ⟨⟨hawaits, hempty⟩, rfl⟩
    · obtain ⟨hawaits₃, hq₃⟩ := hawaits.handleDatagram hempty hfits h₃
      obtain ⟨hevents, hqe⟩ := passes_drainSsdpEvents hawaits₃.packed
      have hlen₃ : ∀ x ∈ (drainSsdpEvents d₃).2.queue, x.2.length ≤ ssdpBufLen := by
        rw [hqe, hq₃]
        exact fun x hx => length_answersTo hx
      obtain ⟨hpass₄, hempty₄, rfl⟩ := drainSsdp_eq hevents.packed hlen₃ h₄
      refine ⟨⟨(hawaits₃.passes hevents).passes hpass₄, hempty₄⟩, ?_⟩
      rw [ssdpAnswers, hrec, hqe, hq₃]
  refine ⟨t', hturn.1, ?_⟩
  rw [hturn.2, hsent, List.nil_append]
  obtain ⟨hlt, rfl, hq⟩ | ⟨hle, hq, hlow, hhigh⟩ := hround
  · rw [hq]
    exact .quiet hlt
  · rw [hq]
    exact .round hle hlow hhigh

theorem Waits.run {t : Instant} {s s' : SsdpLoop} (h : Waits d₀ t s)
    (hfits : d₀.aliveBytes ≤ 4096) {turns : List Turn}
    (hr : run (ssdpStep httparse) turns s = some s') :
    ∃ t', Waits d₀ t' s' ∧ Steps (Beacon.Step Turn.now (ssdpAnswers httparse d₀) (ssdpRound d₀)
      (min (Duration.fromMillis 100) d₀.aliveInterval) d₀.longestGap) turns ⟨t, s.history⟩
      ⟨t', s'.history⟩ := by
  induction turns generalizing t s with
  | nil =>
      obtain rfl : s = s' := by simpa using hr
      exact ⟨t, h, .nil _⟩
  | cons turn turns ih =>
      obtain ⟨s₁, hs, hr⟩ := Option.bind_eq_some_iff.mp (by simpa using hr)
      obtain ⟨t₁, h₁, hstep⟩ := h.turn hfits hs
      obtain ⟨t', h', hsteps⟩ := ih h₁ hr
      exact ⟨t', h', .cons hstep hsteps⟩

theorem handleDatagram_returns (hp : SplitsBlock httparse) (d : Device) {now : Instant}
    (source : SocketAddr) (payload : List UInt8) (hmax : now + Duration.fromSecs 5 ≤ Duration.max) :
    ∃ d', d.handleDatagram httparse now source payload = some d' := by
  unfold Device.handleDatagram
  split
  · rename_i search hparse
    have hw : (MessageRef.search search).WellFormed := wellFormed_of_parseDatagram hp hparse
    obtain ⟨hmin, hmx⟩ := hw.mx
    refine Device.handleSearch_returns d source ?_ ?_
    · intro h0
      rw [h0] at hmin
      exact absurd hmin (by decide)
    · refine (Nat.add_le_add_left ?_ now).trans hmax
      have h5 : search.mx.toNat * 1000 ≤ 5 * 1000 :=
        Nat.mul_le_mul_right 1000 (UInt8.le_iff_toNat_le.mp hmx)
      have hmillis : Duration.fromMillis (search.mx.toNat * 1000) ≤ Duration.fromMillis (5 * 1000) :=
        Nat.mul_le_mul_right _ h5
      exact hmillis.trans (by decide)
  · exact ⟨d, rfl⟩

/-- A turn returns where the clock has room for the next round and the wait of a search, and the
loop goes on where the socket does not fail. -/
theorem Waits.returns {t : Instant} {s : SsdpLoop} (h : Waits d₀ t s) (hp : SplitsBlock httparse)
    {turn : Turn}
    (hnow : turn.now + d₀.longestGap ≤ Duration.max)
    (hreceived : ∀ now source payload, turn.received = .datagram now source payload →
      now + Duration.fromSecs 5 ≤ Duration.max) :
    (∃ r, ssdpTurn httparse turn s = some r) ∧
      ((∀ sent x, turn.refuses sent x = none) → (∀ err, turn.received ≠ .failed err) →
        ∃ s', ssdpTurn httparse turn s = some (.ok s')) := by
  obtain ⟨k, hk⟩ := h.awaits.sole
  have hgap : s.device.longestGap = d₀.longestGap := by
    rw [Device.longestGap, Device.longestGap, Device.aliveInterval_of_keys h.awaits.keys]
  obtain ⟨d₁, h₁⟩ := Device.handleTimeout_returns h.awaits.packed hk (hgap ▸ hnow)
  unfold ssdpTurn
  rw [h₁, Option.bind_eq_bind, Option.bind_some]
  constructor
  · split
    · exact ⟨_, rfl⟩
    · rename_i d₂ sent h₂
      cases hrec : turn.received with
      | nothing => exact ⟨_, rfl⟩
      | failed err => exact ⟨_, rfl⟩
      | datagram now source payload =>
          obtain ⟨d₃, h₃⟩ := handleDatagram_returns hp d₂ source (payload.take ssdpBufLen)
            (hreceived now source payload hrec)
          dsimp only
          rw [h₃, Option.bind_some]
          split
          · exact ⟨_, rfl⟩
          · exact ⟨_, rfl⟩
  · intro hrefuses hnofail
    obtain ⟨⟨d₂, sent⟩, h₂⟩ := drainSsdp_returns hrefuses d₁ []
    rw [h₂]
    dsimp only
    cases hrec : turn.received with
    | nothing => exact ⟨_, rfl⟩
    | failed err => exact absurd hrec (hnofail err)
    | datagram now source payload =>
        obtain ⟨d₃, h₃⟩ := handleDatagram_returns hp d₂ source (payload.take ssdpBufLen)
          (hreceived now source payload hrec)
        obtain ⟨⟨d₄, sent'⟩, h₄⟩ := drainSsdp_returns hrefuses (drainSsdpEvents d₃).2 sent
        dsimp only
        rw [h₃, Option.bind_some, h₄]
        exact ⟨_, rfl⟩

end

/-! The device of the server -/

/-- The bytes that an entry for the target adds to a round, at most. -/
def targetBytes (nt : TargetRef) : Nat := 651 + 2 * min 128 (max 8 nt.text.bytes.length)

theorem length_parseTargetStr_le (s : Str) :
    (parseTargetStr s).text.bytes.length ≤ max 8 s.bytes.length := by
  have hall : (Str.bytes TargetRef.all.text).length = 8 := by decide
  unfold parseTargetStr
  split
  · rename_i t h
    exact (TargetRef.length_text_of_parse h).trans (Nat.le_max_right _ _)
  · exact hall.le.trans (Nat.le_max_left _ _)

theorem length_aliveNotify_of_stored {nt : TargetRef} (d : Device) {t : AdvertEntry}
    (h : targetToString nt = some t.ntStr) : (d.aliveNotify t).wire.length ≤ targetBytes nt := by
  obtain ⟨T, U, L, A, S, B, C, hs, hb⟩ := d.exists_sizes t (length_text_parseTargetStr t.ntStr)
  have hT := length_parseTargetStr_le t.ntStr.toStr
  rw [hs.target, toStr_of_targetToString h] at hT
  obtain ⟨_, _, _, _, _, _, _⟩ := hb
  rw [Device.length_aliveNotify hs, targetBytes]
  omega

theorem sum_addTarget (d : Device) (nt : TargetRef) (maxAge : Duration) {f : AdvertEntry → Nat}
    {b : Nat} (hf : ∀ t : AdvertEntry, targetToString nt = some t.ntStr → f t ≤ b) :
    ((d.addTarget nt maxAge).2.targets.toList.map f).sum ≤ (d.targets.toList.map f).sum + b := by
  obtain he | ⟨ntStr, targets, hs, -, ht, he⟩ := d.addTarget_cases nt maxAge
  · rw [he]
    exact Nat.le_add_right ..
  · rw [he]
    dsimp only
    rw [ht, List.map_append, List.sum_append, List.map_singleton, List.sum_singleton]
    exact Nat.add_le_add_left (hf _ hs) _

theorem sum_foldl_addTarget {f : AdvertEntry → Nat} {g : TargetRef → Nat}
    (hf : ∀ nt (t : AdvertEntry), targetToString nt = some t.ntStr → f t ≤ g nt)
    (nts : List TargetRef) (d : Device) :
    ((nts.foldl (fun d nt => (d.addTarget nt ssdpMaxAge).2) d).targets.toList.map f).sum ≤
      (d.targets.toList.map f).sum + (nts.map g).sum := by
  induction nts generalizing d with
  | nil => exact Nat.le_add_right ..
  | cons nt nts ih =>
      have hadd := sum_addTarget d nt ssdpMaxAge (hf nt)
      refine (ih (d.addTarget nt ssdpMaxAge).2).trans ?_
      rw [List.map_cons, List.sum_cons]
      omega

/-- Whatever the configuration, a round has room. -/
theorem aliveBytes_ssdpDevice (config : RuntimeConfig) (scanned : ScannedMediaTree)
    (seed : UInt32) : (ssdpDevice (.ofScanned config scanned) seed).aliveBytes ≤ 4096 := by
  have hfixed : targetBytes .rootDevice +
      (targetBytes (.deviceType "schemas-upnp-org".toList "MediaServer".toList 1) +
        (targetBytes (.serviceType "schemas-upnp-org".toList "ContentDirectory".toList 1) +
          targetBytes (.serviceType "schemas-upnp-org".toList "ConnectionManager".toList 1))) ≤
      3000 := by decide
  have huuid : targetBytes (.uuid config.uuid) ≤ 907 := by
    rw [targetBytes]
    omega
  have hnew : (newDevice config seed).targets.toList = [] := rfl
  have hround := sum_foldl_addTarget (g := targetBytes)
    (f := fun t => ((ssdpDevice (.ofScanned config scanned) seed).aliveNotify t).wire.length)
    (fun _ _ => length_aliveNotify_of_stored _) (ssdpTargets config.uuid) (newDevice config seed)
  rw [← @ssdpDevice_eq config scanned seed, hnew, List.map_nil, List.sum_nil, Nat.zero_add] at hround
  refine hround.trans ?_
  simp only [ssdpTargets, List.map_cons, List.map_nil, List.sum_cons, List.sum_nil]
  omega

theorem Announces.aliveInterval {config : RuntimeConfig} {seed : UInt32} {d : Device}
    (h : Announces config seed d) : d.aliveInterval = Duration.fromSecs 900 := by
  have hhalf : ssdpMaxAge / 2 = Duration.fromSecs 900 := by decide
  rw [Device.aliveInterval, ← hhalf]
  congr 1
  cases hmin : (d.targets.toList.map AdvertEntry.maxAge).min? with
  | none => rfl
  | some age =>
      obtain ⟨t, ht, rfl⟩ := List.mem_map.mp (List.min?_mem hmin)
      obtain ⟨nt, -, -, hage⟩ := h.stored t ht
      exact hage

theorem Announces.waits {config : RuntimeConfig} {seed : UInt32} {d : Device}
    (h : Announces config seed d) (now : Instant) : Waits d now ⟨d.start now, []⟩ :=
  ⟨Device.awaits_start h.ready.idle now, h.queue⟩

theorem beacon_of_run {httparse : List UInt8 → Nat → Outcome} {config : RuntimeConfig}
    {scanned : ScannedMediaTree} {seed : UInt32} {start : Instant} {turns : List Turn} {s : SsdpLoop}
    (hr : run (ssdpStep httparse) turns (ssdpStart (.ofScanned config scanned) seed start) =
      some s) : ∃ device next, device = ssdpDevice (.ofScanned config scanned) seed ∧
      Announces config seed device ∧ Waits device next s ∧
      Steps (Beacon.Step Turn.now (ssdpAnswers httparse device) (ssdpRound device)
        (Duration.fromMillis 100) (Duration.fromSecs 900)) turns ⟨start, []⟩ ⟨next, s.history⟩ := by
  have h : Announces config seed (ssdpDevice (.ofScanned config scanned) seed) :=
    announces_ssdpDevice
  have hfits := aliveBytes_ssdpDevice config scanned seed
  have hstart : ssdpStart (.ofScanned config scanned) seed start =
    ⟨(ssdpDevice (.ofScanned config scanned) seed).start start, []⟩ := rfl
  rw [hstart] at hr
  generalize ssdpDevice (.ofScanned config scanned) seed = device at *
  obtain ⟨next, hwaits, hsteps⟩ := (h.waits start).run hfits hr
  have hgap : device.longestGap = Duration.fromSecs 900 := by
    rw [Device.longestGap, h.aliveInterval]
    decide
  have hshort : min (Duration.fromMillis 100) device.aliveInterval = Duration.fromMillis 100 := by
    rw [h.aliveInterval]
    decide
  rw [hgap, hshort] at hsteps
  exact ⟨device, next, rfl, h, hwaits, hsteps⟩

/-- In every run the loop is a beacon whose round goes out again after at most 900 seconds. No
configuration and no datagram make it drop or hold back what it enqueued, and where the clock has
room and the socket does not fail it goes on. -/
theorem ssdp_loop_is_beacon (httparse : List UInt8 → Nat → Outcome) (hp : SplitsBlock httparse)
    (config : RuntimeConfig) (scanned : ScannedMediaTree) (seed : UInt32) (start : Instant)
    (turns : List Turn) (s : SsdpLoop)
    (hr : run (ssdpStep httparse) turns (ssdpStart (.ofScanned config scanned) seed start) =
      some s) :
    (∃ next, Steps (Beacon.Step Turn.now
        (ssdpAnswers httparse (ssdpDevice (.ofScanned config scanned) seed))
        (ssdpRound (ssdpDevice (.ofScanned config scanned) seed)) (Duration.fromMillis 100)
        (Duration.fromSecs 900)) turns ⟨start, []⟩ ⟨next, s.history⟩) ∧
      ∀ turn : Turn, turn.now + Duration.fromSecs 900 ≤ Duration.max →
        (∀ now source payload, turn.received = .datagram now source payload →
          now + Duration.fromSecs 5 ≤ Duration.max) →
        (∃ r, ssdpTurn httparse turn s = some r) ∧
          ((∀ sent x, turn.refuses sent x = none) → (∀ err, turn.received ≠ .failed err) →
            ∃ s', ssdpTurn httparse turn s = some (.ok s')) := by
  obtain ⟨device, next, rfl, h, hwaits, hsteps⟩ := beacon_of_run hr
  refine ⟨⟨next, hsteps⟩, fun turn hnow hrec => hwaits.returns hp ?_ hrec⟩
  rw [Device.longestGap, h.aliveInterval]
  exact hnow

/-- A turn at the start of the clock that receives a search for everything. -/
def searchTurn : Turn where
  now := .zero
  refuses _ _ := none
  received := .datagram .zero (.v4 0 1900) searchAll.wire

theorem exists_searchTurn : ∃ s, run (ssdpStep splitBlock) [searchTurn]
    (ssdpStart (.ofScanned .default ⟨[], []⟩) 1 .zero) = some s := by
  have h : Announces .default 1 (ssdpDevice (.ofScanned .default ⟨[], []⟩) 1) :=
    announces_ssdpDevice
  have hgap : Instant.zero + (ssdpDevice (.ofScanned .default ⟨[], []⟩) 1).longestGap ≤
      Duration.max := by
    rw [Device.longestGap, h.aliveInterval]
    decide
  have hreceived : ∀ now source payload, searchTurn.received = .datagram now source payload →
      now + Duration.fromSecs 5 ≤ Duration.max := by
    rintro now source payload ⟨⟩
    decide
  obtain ⟨s, hs⟩ := ((h.waits .zero).returns splitBlock_splitsBlock hgap hreceived).2
    (fun _ _ => rfl) (fun _ h => by cases h)
  have hstep : ssdpStep splitBlock searchTurn
      (ssdpStart (.ofScanned .default ⟨[], []⟩) 1 .zero) = some s :=
    congrArg (fun o => o.bind Except.toOption) hs
  exact ⟨s, by rw [run_cons, hstep]; rfl⟩

theorem ssdp_loop_is_beacon_search : ∃ s, run (ssdpStep splitBlock) [searchTurn]
      (ssdpStart (.ofScanned .default ⟨[], []⟩) 1 .zero) = some s ∧
    ∃ next, Steps (Beacon.Step Turn.now
      (ssdpAnswers splitBlock (ssdpDevice (.ofScanned .default ⟨[], []⟩) 1))
      (ssdpRound (ssdpDevice (.ofScanned .default ⟨[], []⟩) 1)) (Duration.fromMillis 100)
      (Duration.fromSecs 900)) [searchTurn] ⟨Instant.zero, []⟩ ⟨next, s.history⟩ := by
  obtain ⟨s, hr⟩ := exists_searchTurn
  exact ⟨s, hr, (ssdp_loop_is_beacon splitBlock splitBlock_splitsBlock .default ⟨[], []⟩ 1 .zero
    [searchTurn] s hr).1⟩

/-! What the round and the answers say -/

theorem Registers.addTarget {d : Device} {targets : List TargetRef} (h : d.Registers targets)
    (hroom : targets.length < maxTargets) {nt : TargetRef} (hfits : nt.text.bytes.length ≤ 124)
    (maxAge : Duration) : (d.addTarget nt maxAge).2.Registers (targets ++ [nt]) := by
  obtain ⟨ntStr, hs, -⟩ := Option.map_eq_some_iff.mp (targetToString_of_fits hfits)
  have hlen : d.targets.toList.length < maxTargets := h.length_eq ▸ hroom
  have hnot : d.targets.isFull = false := by
    rw [Bool.eq_false_iff, ne_eq, BoundedVec.isFull_iff]
    omega
  have hpush := d.targets.toList_pushOrDrop
    ⟨ntStr, maxAge, UInt8.ofNat initialAliveCount⟩
  rw [if_pos hlen] at hpush
  rw [Device.addTarget, hnot, if_neg (by decide), hs]
  dsimp only
  rw [Device.Registers, hpush]
  exact List.rel_append h (.cons hs .nil)

theorem registers_foldl {nts targets : List TargetRef} {d : Device} (h : d.Registers targets)
    (hroom : targets.length + nts.length ≤ maxTargets)
    (hfits : ∀ nt ∈ nts, nt.text.bytes.length ≤ 124) :
    (nts.foldl (fun d nt => (d.addTarget nt ssdpMaxAge).2) d).Registers (targets ++ nts) := by
  induction nts generalizing targets d with
  | nil => simpa using h
  | cons nt nts ih =>
      obtain ⟨hnt, hnts⟩ := List.forall_mem_cons.mp hfits
      rw [List.length_cons] at hroom
      have hadd := Registers.addTarget h (by omega) hnt ssdpMaxAge
      have hlen : (targets ++ [nt]).length + nts.length ≤ maxTargets := by
        rw [List.length_append, List.length_singleton]
        omega
      have hrest := ih hadd hlen hnts
      rwa [List.append_assoc, List.singleton_append] at hrest

/-- A uuid that has room in the device has room in its target too. -/
theorem registers_ssdpDevice {config : RuntimeConfig} (scanned : ScannedMediaTree) (seed : UInt32)
    (huuid : config.uuid.bytes.length ≤ maxUuidLen) :
    (ssdpDevice (.ofScanned config scanned) seed).Registers (ssdpTargets config.uuid) := by
  have hnew : (newDevice config seed).Registers [] := .nil
  have htext : (TargetRef.uuid config.uuid).text.bytes.length ≤ 124 := by
    have hscheme : (Str.bytes "uuid:".toList).length = 5 := by decide
    have hmax : maxUuidLen = 64 := rfl
    rw [TargetRef.text_uuid, Str.bytes_append, List.length_append, hscheme]
    omega
  have hroom : ([] : List TargetRef).length + (ssdpTargets config.uuid).length ≤ maxTargets :=
    (by decide : 5 ≤ maxTargets)
  rw [ssdpDevice_eq]
  refine registers_foldl hnew hroom ?_
  simp only [ssdpTargets, List.forall_mem_cons]
  exact ⟨by decide, htext, by decide, by decide, by decide, by simp⟩

/-- The datagram reaches the address as an alive notification of the target. -/
def TellsAlive (httparse : List UInt8 → Nat → Outcome) (config : RuntimeConfig) (nt : TargetRef)
    (x : Sent) : Prop :=
  x.1 = ssdpMulticast ∧ ∃ n : NotifyRef, parseDatagram httparse x.2 = .ok (.notify n) ∧
    n.nts = .alive ∧ n.nt = nt ∧ n.usn = makeUsnRef config.uuid nt ∧
    n.location = some (config.publicBaseUrl ++ "device.xml".toList) ∧ n.maxAge = some ssdpMaxAge

/-- The datagram reaches the source of the search as its answer about the target. -/
def TellsAnswer (httparse : List UInt8 → Nat → Outcome) (config : RuntimeConfig)
    (source : SocketAddr) (search nt : TargetRef) (x : Sent) : Prop :=
  x.1 = source ∧ ∃ r : SearchResponseRef, parseDatagram httparse x.2 = .ok (.searchResponse r) ∧
    r.st = answeredTarget search nt ∧ r.usn = answeredUsn config.uuid (answeredTarget search nt) ∧
    r.location = config.publicBaseUrl ++ "device.xml".toList ∧ r.maxAge = ssdpMaxAge

section
variable {httparse : List UInt8 → Nat → Outcome} (hp : SplitsBlock httparse)
  {config : RuntimeConfig} {seed : UInt32} (hc : PlainConfig config) (hf : FitsDevice config)
  {d : Device} (h : Announces config seed d) (hreg : d.Registers (ssdpTargets config.uuid))
include hc hf h

theorem Announces.identity : d.HasIdentity config.uuid (config.publicBaseUrl ++ "device.xml".toList)
    (some ssdpServer) (max seed 1) 1 :=
  (Device.hasIdentity_new (hc.identity hf) seed).of_same h.same

include hreg

omit hf in
theorem Announces.entry {nt : TargetRef} (hnt : nt ∈ ssdpTargets config.uuid) :
    ∃ t ∈ d.targets.toList, Device.Stores t (nt, ssdpMaxAge) := by
  obtain ⟨i, hi, rfl⟩ := List.mem_iff_getElem.mp hnt
  obtain ⟨hlen, hall⟩ := List.forall₂_iff_get.mp hreg
  have hstored := hall i (hlen ▸ hi) hi
  have hmem : d.targets.toList.get ⟨i, hlen ▸ hi⟩ ∈ d.targets.toList := List.get_mem _ _
  obtain ⟨-, -, -, hage⟩ := h.stored _ hmem
  exact ⟨_, hmem, parseTargetStr_of_stored (hc.printable _ hnt).wellFormed.1 hstored, hage⟩

include hp

theorem tellsAlive_of_round {nt : TargetRef} (hnt : nt ∈ ssdpTargets config.uuid) :
    ∃ x ∈ ssdpRound d, TellsAlive httparse config nt x := by
  obtain ⟨t, ht, hstores⟩ := h.entry hc hreg hnt
  have hid := h.identity hc hf
  have hw := Device.aliveNotify_wellFormed (hc.identity hf) hid (hc.printable nt hnt) hstores
  have hmem : (Destination.multicastV4, (d.aliveNotify t).wire) ∈
      (d.aliveDatagrams .multicastV4).reverse :=
    List.mem_reverse.mpr (List.mem_map_of_mem ht)
  refine ⟨(ssdpMulticast, (d.aliveNotify t).wire), List.mem_filterMap.mpr ⟨_, hmem, rfl⟩, rfl,
    d.aliveNotify t, parseDatagram_notify hp hw, rfl, hstores.target, ?_, ?_, ?_⟩
  · simp only [Device.aliveNotify, hstores.target, hid.uuid]
  · exact congrArg some hid.location
  · exact congrArg some hstores.maxAge

theorem tellsAnswer_of_search {nt : TargetRef} (hnt : nt ∈ ssdpTargets config.uuid)
    {source : SocketAddr} {payload : List UInt8} {search : MSearchRef}
    (hparse : parseDatagram httparse payload = .ok (.search search))
    (hm : Matches search.st nt) :
    ∃ x ∈ (d.answersTo httparse source payload).reverse.filterMap addressed,
      TellsAnswer httparse config source search.st nt x := by
  obtain ⟨t, ht, hstores⟩ := h.entry hc hreg hnt
  have hid := h.identity hc hf
  have hs : (MessageRef.search search).WellFormed := wellFormed_of_parseDatagram hp hparse
  have hw := Device.searchResponse_wellFormed (hc.identity hf) hid hs.st (hc.printable nt hnt) hstores
  have hst : responseTarget search.st (parseTargetStr t.ntStr.toStr) = answeredTarget search.st nt := by
    rw [hstores.target]
    exact responseTarget_of_matches hm
  have hmem : (Destination.unicast source, (d.searchResponse search.st t).wire) ∈
      (d.answersTo httparse source payload).reverse := by
    rw [Device.answersTo, hparse]
    refine List.mem_reverse.mpr (List.mem_map_of_mem (List.mem_filter.mpr ⟨ht, ?_⟩))
    rw [AdvertEntry.answers, hstores.target]
    exact targetMatches_iff.mpr hm
  refine ⟨(source, (d.searchResponse search.st t).wire), List.mem_filterMap.mpr ⟨_, hmem, rfl⟩, rfl,
    d.searchResponse search.st t, parseDatagram_response hp hw, hst, ?_, hid.location,
    hstores.maxAge⟩
  simp only [Device.searchResponse, hst, hid.uuid]
  exact makeUsnRef_eq _ _

end

/-! The runs of the loop -/

end RustyCastle.Server
