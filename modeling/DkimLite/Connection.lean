import DkimLite.MilterRun
import DkimLite.Socket

/-!
# A connection is a run of packets

The loop of `handle_connection_until` on a `Socket` does to every iteration it reaches what
`onPackets` does to the packets read so far (`connection_follows`): the variables of the loop are
those of the run, and the bytes written are the replies of the run. How the input was cut up, how
much of the output was taken at a time and which calls were interrupted makes no difference. So
what is proved of runs holds of connections.

`readPacketInto_ok` is the rule for reading a packet on any `Source`.
-/

namespace DkimLite
open Rust Text

/-! ## Packets on the wire -/

/-- A packet with its length in front. -/
def encodePacket (packet : Bytes) : Bytes := toBeBytes (UInt32.ofNat packet.length) ++ packet

theorem Frame.encode_eq (f : Frame) : f.encode = encodePacket (f.command :: f.payload) := by
  rw [Frame.encode, encodePacket, List.length_cons, Nat.add_comm]

theorem length_resize (xs : Bytes) (n : Nat) : (resize xs n).length = n := by
  rw [resize, List.length_append, List.length_take, List.length_replicate]
  omega

/-- A length that is no packet's. -/
def BadLength (bs : Bytes) : Prop := ∃ n, bs = toBeBytes n ∧ (n.toNat = 0 ∨ maxPacket < n.toNat)

/-- A length, and not all of the packet it announces. -/
def CutOff (bs : Bytes) : Prop := ∃ n part, bs = toBeBytes n ++ part ∧ n.toNat ≤ maxPacket ∧ part.length < n.toNat

section
variable {σ : Type}

/-- **Reading a packet.** It is read whole and is of a legal length; otherwise the stream ended
before or inside its length, or inside the packet, or the length was not a legal one. -/
theorem readPacketInto_ok {src : Source σ} {stream : Reader σ} (hread : src.Feeds stream) (packet : Bytes) {s : σ}
    (hs : src.inv s) :
    Action.Ok src.faulty
      (fun _ t => src.faulty ∨ ∃ bs, src.gives bs s t ∧ (CutOff bs ∧ src.ended t ∨ BadLength bs))
      (fun r t => match r with
        | none => src.faulty ∨ ∃ bs, bs.length < 4 ∧ src.gives bs s t ∧ src.ended t
        | some p => p ≠ [] ∧ p.length ≤ maxPacket ∧ src.inv t ∧ src.gives (encodePacket p) s t ∧ src.left t < src.left s)
      (readPacketInto stream packet s) := by
  unfold readPacketInto
  refine (hread [0, 0, 0, 0] s hs).try'.bind fun r t hr => ?_
  match r, hr with
  | .error e, he =>
    simp only at he ⊢
    by_cases heof : e.kind = .unexpectedEof
    · rw [if_pos heof]
      refine he.imp_right ?_
      rintro ⟨-, bs, hlen, hgives, hended⟩
      exact ⟨bs, by simpa using hlen, hgives, hended⟩
    · rw [if_neg heof]
      exact Or.inl (he.resolve_right fun h => heof h.1)
  | .ok length, ⟨hlength, hinv, hgives, hle, hlt⟩ =>
    obtain ⟨n, hn⟩ := fromBeBytes_total hlength
    obtain rfl := toBeBytes_of_fromBeBytes hn
    refine Action.Ok.of_ok (by rw [hn, Action.lift_ok]) ?_
    by_cases hbad : n.toNat = 0 ∨ maxPacket < n.toNat
    · rw [if_pos hbad]
      exact Or.inr ⟨_, hgives, Or.inr ⟨n, rfl, hbad⟩⟩
    · rw [if_neg hbad]
      have hsize := length_resize packet n.toNat
      refine ((hread (resize packet n.toNat) t hinv).mono ?_ fun _ _ h => h).bind fun p u hp => ?_
      · intro e u he
        refine he.imp_right ?_
        rintro ⟨-, part, hpart, hrest, hended⟩
        exact ⟨_, src.gives_append hgives hrest, Or.inl ⟨⟨n, part, rfl, by omega, by omega⟩, hended⟩⟩
      · obtain ⟨hplen, hinv', hrest, hle', -⟩ := hp
        rw [hsize] at hplen
        have hhead : UInt32.ofNat p.length = n := by rw [hplen, UInt32.ofNat_toNat]
        refine ⟨?_, by omega, hinv', ?_, Nat.lt_of_le_of_lt hle' (hlt (by decide))⟩
        · rintro rfl
          simp at hplen
          omega
        · rw [encodePacket, hhead]
          exact src.gives_append hgives hrest

end

/-! ## Sockets -/

/-- What one call on a socket may do: a tick is gone, and an interrupted call moved nothing. -/
theorem call_ok {α : Type} {move : Socket → Nat → α × Socket} {Q : α → Socket → Prop} (s : Socket)
    (hmove : ∀ u n, u.input = s.input → u.output = s.output → u.ticks.length < s.ticks.length →
      Q (move u n).1 (move u n).2) :
    Action.Ok True (fun e t => e.kind = .interrupted →
      t.ticks.length < s.ticks.length ∧ t.input = s.input ∧ t.output = s.output) Q (Socket.call move s) := by
  unfold Socket.call
  cases hticks : s.ticks with
  | nil => trivial
  | cons tick ticks =>
    have hshort : ticks.length < (tick :: ticks).length := by simp
    have hremaining : ∀ now e, remaining s.deadline now = .error e → e.kind ≠ .interrupted := by
      intro now e h
      unfold remaining at h
      split at h
      · cases h
      · cases h; simp
    simp only
    cases hbefore : remaining s.deadline tick.before with
    | error e => exact fun hint => absurd hint (hremaining _ e hbefore)
    | ok timeout =>
      simp only
      cases tick.setTimeout with
      | error e => exact fun _ => ⟨hshort, rfl, rfl⟩
      | ok _ =>
        simp only
        cases tick.answer with
        | error e =>
          simp only
          cases hafter : remaining s.deadline tick.after with
          | error e => exact fun hint => absurd hint (hremaining _ e hafter)
          | ok _ => exact fun _ => ⟨hshort, rfl, rfl⟩
        | ok n =>
          simp only
          split
          · -- too late, whatever was moved
            rename_i e hafter
            refine fun hint => absurd hint ?_
            unfold remaining at hafter
            split at hafter
            · cases hafter
            · cases hafter; simp
          · exact hmove _ n rfl rfl (by rw [hticks]; exact hshort)

namespace Socket

/-- A socket as a stream that is read, with any calls failing. -/
def source : Source Socket where
  inv _ := True
  gives bs s t := s.input = bs ++ t.input ∧ t.output = s.output
  left s := s.ticks.length
  ended _ := True
  faulty := True
  gives_nil _ := ⟨rfl, rfl⟩
  gives_append := by
    rintro a b s t u ⟨hs, hs'⟩ ⟨ht, ht'⟩
    exact ⟨by rw [hs, ht, List.append_assoc], ht'.trans hs'⟩

def sink : Sink Socket where
  inv _ := True
  takes bs s t := t.output = s.output ++ bs ∧ t.input = s.input
  left s := s.ticks.length
  faulty := True
  takes_nil s := ⟨(List.append_nil _).symm, rfl⟩
  takes_append := by
    rintro a b s t u ⟨hs, hs'⟩ ⟨ht, ht'⟩
    exact ⟨by rw [ht, hs, List.append_assoc], ht'.trans hs'⟩

theorem reader_feeds : source.Feeds reader := by
  refine readExact_feeds (fun _ => Nat.lt_succ_self _) fun length s _ _ => ?_
  unfold read
  refine (call_ok s fun u n hin hout hless => ?_).mono (fun e t h => ?_) fun _ _ h => h
  · refine ⟨?_, ⟨?_, hout⟩, hless, by split <;> trivial⟩
    · rw [List.length_take]
      omega
    · rw [← hin]
      exact (List.take_append_drop _ _).symm
  · split
    case isTrue hint => obtain ⟨hless, hin, hout⟩ := h hint; exact ⟨trivial, ⟨hin.symm, hout⟩, hless⟩
    case isFalse => trivial

theorem writer_takes : sink.Takes writer where
  writeAll buf s hs := by
    refine writeAll_takes (fun _ => Nat.lt_succ_self _) (fun buf s _ => ?_) buf s hs
    unfold write
    refine (call_ok s fun u n hin hout hless => ?_).mono (fun e t h => ?_) fun _ _ h => h
    · refine ⟨Nat.min_le_right _ _, fun _ => trivial, trivial, ⟨?_, hin⟩, hless⟩
      rw [← hout]
    · split
      case isTrue hint => obtain ⟨hless, hin, hout⟩ := h hint; exact ⟨trivial, ⟨by rw [hout, List.append_nil], hin⟩, hless⟩
      case isFalse => trivial
  flush s _ := by
    show Action.Ok _ _ _ (Socket.flush s)
    unfold flush
    refine (call_ok s fun u n hin hout hless => ?_).mono (fun _ _ _ => trivial) fun _ _ h => h
    exact ⟨trivial, ⟨by rw [List.append_nil, hout], hin⟩, Nat.le_of_lt hless⟩

end Socket

/-! ## The loop -/

section
variable {Key : Type} {moments : Nat → Moment Key}

/-- The packets read so far, each at its moment. -/
def eventsOf (moments : Nat → Moment Key) (packets : List Bytes) : List (Event Key) :=
  packets.mapIdx fun i packet => ⟨moments i, packet⟩

theorem eventsOf_snoc (moments : Nat → Moment Key) (packets : List Bytes) (packet : Bytes) :
    eventsOf moments (packets ++ [packet]) = eventsOf moments packets ++ [⟨moments packets.length, packet⟩] :=
  List.mapIdx_concat

theorem eventsOf_documented (hssl : ∀ k, (moments k).env.ssl.Documented) (packets : List Bytes) :
    Documented (eventsOf moments packets) := by
  intro e he
  obtain ⟨i, hi, rfl⟩ := List.mem_mapIdx.1 he
  exact hssl i

/-- Where the loop stands on a socket that was `s` at its start, after it has read `packets`. -/
structure Stands (moments : Nat → Moment Key) (s : Socket) (packets : List Bytes) (v : Conn Key × Bytes × Nat)
    (t : Socket) : Prop where
  conn : after (eventsOf moments packets) = some v.1
  buffer : v.2.1 = packets.getLast?.getD []
  count : v.2.2 = packets.length
  sizes : ∀ p ∈ packets, p ≠ [] ∧ p.length ≤ maxPacket
  input : s.input = packets.flatMap encodePacket ++ t.input
  output : t.output = s.output ++ written (eventsOf moments packets)

theorem stands_init (moments : Nat → Moment Key) (s : Socket) : Stands moments s [] ({}, [], 0) s where
  conn := rfl
  buffer := rfl
  count := rfl
  sizes := by simp
  input := by simp
  output := (List.append_nil _).symm

/-- **One turn** reads a packet and does to the connection what the run does; it uses up a call. -/
theorem turn_ok (hssl : ∀ k, (moments k).env.ssl.Documented) {s : Socket} {packets : List Bytes} {v : Conn Key × Bytes × Nat}
    {t : Socket} (h : Stands moments s packets v t) :
    Action.Ok True (fun _ _ => True)
      (fun r u => match r with
        | .again w => (∃ packet, Stands moments s (packets ++ [packet]) w u) ∧ u.ticks.length < t.ticks.length
        | .done _ => True)
      (turn Socket.reader Socket.writer moments v t) := by
  obtain ⟨conn, buffer, count⟩ := v
  obtain ⟨hconn, -, hcount, hsizes, hinput, houtput⟩ := h
  simp only at hconn hcount
  subst hcount
  rw [turn]
  refine (readPacketInto_ok Socket.reader_feeds buffer (s := t) trivial).try'.bind fun r u hr => ?_
  match r, hr with
  | .error _, _ => trivial
  | .ok none, _ => trivial
  | .ok (some packet), ⟨hne, hsize, _, ⟨hu, hu'⟩, hless⟩ =>
    have hdoc := hssl packets.length
    refine (onPacket_ok Socket.writer_takes hdoc conn packet (s := u) trivial |>.mono (fun _ _ _ => trivial)
      fun _ _ h => h).bind fun flow w hw => ?_
    obtain ⟨frames, hreact, -, ⟨hw, hw'⟩, hle⟩ := hw
    cases flow with
    | done _ => trivial
    | again conn' =>
      have hrun := runOf_snoc (e := ⟨moments packets.length, packet⟩) hdoc hconn
      rw [hreact, answer] at hrun
      refine ⟨⟨packet, ?_, by simp, by simp, ?_, ?_, ?_⟩, Nat.lt_of_le_of_lt hle hless⟩
      · rw [eventsOf_snoc, after, hrun]
      · intro p hp
        rcases List.mem_append.1 hp with hp | hp
        · exact hsizes p hp
        · obtain rfl := List.mem_singleton.1 hp
          exact ⟨hne, hsize⟩
      · rw [hinput, hu, hw', List.flatMap_append, List.flatMap_singleton, List.append_assoc]
      · rw [eventsOf_snoc, written, hrun, hw, hu', houtput, List.append_assoc]
        rfl

/-- The loop ends, and nothing in it panics: every turn uses up a call of the socket. -/
theorem connection_ok (hssl : ∀ k, (moments k).env.ssl.Documented) (socket : Socket) :
    Action.Ok True (fun _ _ => True) (fun _ _ => True) (handleConnectionUntil moments socket) := by
  refine Action.loop_ok (fun v t => ∃ packets, Stands moments socket packets v t) (fun _ t => t.ticks.length) ?_
    socket.fuel _ socket ⟨[], stands_init moments socket⟩ (Nat.lt_succ_self _)
  rintro v t ⟨packets, hstands⟩
  refine (turn_ok hssl hstands).mono (fun _ _ h => h) fun r u hr => ?_
  cases r with
  | again w => obtain ⟨⟨packet, hnext⟩, hless⟩ := hr; exact ⟨⟨_, hnext⟩, hless⟩
  | done _ => trivial

/-- **Every iteration the loop reaches stands where a run does.** -/
theorem connection_follows (hssl : ∀ k, (moments k).env.ssl.Documented) {s t : Socket} {v : Conn Key × Bytes × Nat}
    (h : Action.Reaches (turn Socket.reader Socket.writer moments) ({}, [], 0) s v t) :
    ∃ packets, Stands moments s packets v t := by
  refine h.invariant (I := fun v t => ∃ packets, Stands moments s packets v t) ⟨[], stands_init moments s⟩ ?_
  rintro v t w u ⟨packets, hstands⟩ hturn
  have hok := turn_ok hssl hstands
  rw [hturn] at hok
  obtain ⟨⟨packet, hnext⟩, -⟩ := hok
  exact ⟨_, hnext⟩

end

end DkimLite
