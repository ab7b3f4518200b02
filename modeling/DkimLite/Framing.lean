import DkimLite.Connection
import DkimLite.Replies

/-!
# The framing, both ways

`writeFrames` and `readPackets` are `write_packet`, `write_status` and `read_packet_into`
(`src/milter.rs:544-561, 602-622`) called over and over. What is written is the frames' encoding, in
whatever pieces the other side takes it (`writeFrames_ok`); what is read is the packets at the
front of the stream, however it is cut up (`readPackets_ok`), and the rest of the stream is no
further packet.

A socket that is `Open` takes at least a byte at a time and a socket that is `Fed` gives at least one
while it has any; so nothing fails. `framing_round_trip` puts the two together.
-/

namespace DkimLite
open Rust Text

/-! ## Writing and reading frames -/

section
variable {σ : Type}

/-- A frame of one byte is a status. -/
def writeFrame (stream : Writer σ) (f : Frame) : Action String σ Unit :=
  if f.payload.isEmpty then writeStatus stream f.command else writePacket stream f.command f.payload

def writeFrames (stream : Writer σ) : List Frame → Action String σ Unit
  | [] => return ()
  | f :: fs => do
    writeFrame stream f
    writeFrames stream fs

/-- One packet more, into the buffer of the one before. -/
def readPacketsStep (stream : Reader σ) : List Bytes × Bytes → Action IoError σ (Flow (List Bytes × Bytes) (List Bytes × Option IoError))
  | (packets, buffer) => do
    match ← (readPacketInto stream buffer).try' with
    | .ok (some packet) => return .again (packets ++ [packet], packet)
    | .ok none => return .done (packets, none)
    | .error e => return .done (packets, some e)

/-- The packets read before the first end or error, and that error. -/
def readPackets (stream : Reader σ) (fuel : Nat) (buffer : Bytes) : Action IoError σ (List Bytes × Option IoError) :=
  Action.loop (readPacketsStep stream) fuel ([], buffer)

/-- The packet a frame is. -/
def Frame.packet (f : Frame) : Bytes := f.command :: f.payload

theorem encodeAll_eq (fs : List Frame) : encodeAll fs = (fs.map Frame.packet).flatMap encodePacket := by
  induction fs with
  | nil => rfl
  | cons f fs ih => rw [encodeAll_cons, ih, Frame.encode_eq, List.map_cons, List.flatMap_cons]; rfl

/-- A packet as it may be read. -/
def LegalPacket (p : Bytes) : Prop := p ≠ [] ∧ p.length ≤ maxPacket

/-! ## Writing -/

/-- A frame that may be sent is written in one go, and the stream is flushed. -/
theorem writeFrame_eq (stream : Writer σ) {f : Frame} (hf : LegalPacket f.packet) :
    writeFrame stream f = Action.mapErr cannotWrite (do stream.writeAll f.encode; stream.flush) := by
  obtain ⟨command, payload⟩ := f
  have hmax : maxPacket < 2 ^ 32 := by decide
  have hlen : (command :: payload).length ≤ maxPacket := hf.2
  rw [List.length_cons] at hlen
  rw [writeFrame]
  split
  case isTrue hempty =>
    obtain rfl : payload = [] := by simpa using hempty
    rw [encode_status]
    rfl
  case isFalse =>
    have hlt : ¬ 2 ^ 32 ≤ 1 + payload.length := by omega
    simp only [writePacket, if_neg hlt]
    rfl

theorem writeFrame_ok {snk : Sink σ} {stream : Writer σ} (hw : snk.Takes stream) {f : Frame} (hf : LegalPacket f.packet)
    {s : σ} (hs : snk.inv s) :
    Action.Ok snk.faulty (fun _ _ => snk.faulty) (fun _ t => snk.Took f.encode s t) (writeFrame stream f s) := by
  rw [writeFrame_eq stream hf]
  refine Action.Ok.mapErr ((hw.writeAll f.encode s hs).bind fun _ t ht => ?_) fun _ _ h => h
  refine (hw.flush t ht.inv).mono (fun _ _ h => h) fun _ u hu => ?_
  have htook := ht.append hu
  rwa [List.append_nil] at htook

/-- **Frames are written whole and in order**, or not all of them are. -/
theorem writeFrames_ok {snk : Sink σ} {stream : Writer σ} (hw : snk.Takes stream) : ∀ {fs : List Frame},
    (∀ f ∈ fs, LegalPacket f.packet) → ∀ {s : σ}, snk.inv s →
    Action.Ok snk.faulty (fun _ _ => snk.faulty) (fun _ t => snk.Took (encodeAll fs) s t) (writeFrames stream fs s)
  | [], _, s, hs => .nil hs
  | f :: fs, hfs, s, hs => by
    rw [writeFrames, encodeAll_cons]
    refine (writeFrame_ok hw (hfs f (by simp)) hs).bind fun _ t ht => ?_
    exact (writeFrames_ok hw (fun g hg => hfs g (by simp [hg])) ht.inv).mono (fun _ _ h => h) fun _ u hu => ht.append hu

/-! ## Reading -/

/-- What is left when no packet could be read: less than a length, a packet that is cut off, or a
length that is no packet's. -/
def NoPacket (rest : Bytes) : Option IoError → Prop
  | none => rest.length < 4
  | some _ => CutOff rest ∨ ∃ bad more, BadLength bad ∧ rest = bad ++ more

theorem readPacketsStep_ok {src : Source σ} {stream : Reader σ} (hread : src.Feeds stream) (packets : List Bytes)
    (buffer : Bytes) {s : σ} (hs : src.inv s) :
    Action.Ok src.faulty (fun _ _ => False)
      (fun r t => match r with
        | .again (packets', buffer') => ∃ p, packets' = packets ++ [p] ∧ buffer' = p ∧ LegalPacket p ∧ src.inv t ∧
            src.gives (encodePacket p) s t ∧ src.left t < src.left s
        | .done (packets', ending) => packets' = packets ∧ (src.faulty ∨ ∃ bs, src.gives bs s t ∧ match ending with
            | none => bs.length < 4 ∧ src.ended t
            | some _ => CutOff bs ∧ src.ended t ∨ BadLength bs))
      (readPacketsStep stream (packets, buffer) s) := by
  rw [readPacketsStep]
  refine (readPacketInto_ok hread buffer hs).try'.bind fun r t hr => ?_
  match r, hr with
  | .ok (some p), ⟨hne, hsize, hinv, hgives, hless⟩ => exact ⟨p, rfl, rfl, ⟨hne, hsize⟩, hinv, hgives, hless⟩
  | .ok none, h =>
    refine ⟨rfl, h.imp_right ?_⟩
    rintro ⟨bs, hlen, hgives, hended⟩
    exact ⟨bs, hgives, hlen, hended⟩
  | .error _, h => exact ⟨rfl, h⟩

/-! ## The packets of a stream -/

theorem toNat_length {p : Bytes} (hp : LegalPacket p) : (UInt32.ofNat p.length).toNat = p.length := by
  have hmax : maxPacket < 2 ^ 32 := by decide
  have := hp.2
  exact UInt32.toNat_ofNat_of_lt' (by simp only [UInt32.size]; omega)

/-- The first packet of a stream and what follows it. -/
theorem encodePacket_inj {p q a b : Bytes} (hp : LegalPacket p) (hq : LegalPacket q)
    (h : encodePacket p ++ a = encodePacket q ++ b) : p = q ∧ a = b := by
  simp only [encodePacket, List.append_assoc] at h
  obtain ⟨hlen, hrest⟩ := List.append_inj h rfl
  have hlength : p.length = q.length := by
    have := congrArg UInt32.toNat (toBeBytes_inj hlen)
    rwa [toNat_length hp, toNat_length hq] at this
  exact List.append_inj hrest hlength

/-- Where no packet can be read there is none. -/
theorem noPacket_not {q b : Bytes} (hq : LegalPacket q) {ending : Option IoError} :
    ¬ NoPacket (encodePacket q ++ b) ending := by
  have hlegal := toNat_length hq
  have hpos : 0 < q.length := List.length_pos_iff.2 hq.1
  have hsize := hq.2
  -- whatever starts like this packet has its length
  have hlength : ∀ {n more}, encodePacket q ++ b = toBeBytes n ++ more → n.toNat = q.length ∧ more = q ++ b := by
    intro n more h
    rw [encodePacket, List.append_assoc] at h
    obtain ⟨hlen, hrest⟩ := List.append_inj h rfl
    exact ⟨by rw [← toBeBytes_inj hlen, hlegal], hrest.symm⟩
  cases ending with
  | none =>
    intro h
    simp only [NoPacket, encodePacket, List.length_append, length_toBeBytes] at h
    omega
  | some e =>
    rintro (⟨n, part, hcut, -, hshort⟩ | ⟨bad, more, ⟨n, rfl, hbad⟩, heq⟩)
    · obtain ⟨hn, rfl⟩ := hlength hcut
      rw [List.length_append] at hshort
      omega
    · obtain ⟨hn, -⟩ := hlength heq
      omega

/-- **A stream is read in one way only.** -/
theorem packets_unique : ∀ {ps qs : List Bytes} {rest : Bytes} {ending : Option IoError}, (∀ p ∈ ps, LegalPacket p) →
    (∀ q ∈ qs, LegalPacket q) → NoPacket rest ending → ps.flatMap encodePacket ++ rest = qs.flatMap encodePacket →
    ps = qs ∧ rest = []
  | [], [], rest, _, _, _, _, h => ⟨rfl, h⟩
  | [], q :: qs, rest, _, _, hqs, hrest, h => by
    rw [List.flatMap_nil, List.nil_append, List.flatMap_cons] at h
    rw [h] at hrest
    exact absurd hrest (noPacket_not (hqs q (by simp)))
  | p :: ps, [], rest, _, hps, _, _, h => by simp [encodePacket, toBeBytes] at h
  | p :: ps, q :: qs, rest, _, hps, hqs, hrest, h => by
    rw [List.flatMap_cons, List.flatMap_cons, List.append_assoc] at h
    obtain ⟨rfl, htail⟩ := encodePacket_inj (hps p (by simp)) (hqs q (by simp)) h
    obtain ⟨rfl, rfl⟩ := packets_unique (fun x hx => hps x (by simp [hx])) (fun x hx => hqs x (by simp [hx])) hrest htail
    exact ⟨rfl, rfl⟩

end

/-! ## Sockets on which nothing fails -/

/-- A call within the deadline that moves at least a byte, if there is one. -/
structure Tick.Moves (deadline : Nat) (tick : Tick) : Prop where
  before : tick.before < deadline
  setTimeout : tick.setTimeout = .ok ()
  answer : ∃ n, tick.answer = .ok n ∧ 0 < n
  after : tick.after < deadline

/-- A call within the deadline that is interrupted. -/
structure Tick.Interrupts (deadline : Nat) (tick : Tick) : Prop where
  before : tick.before < deadline
  setTimeout : tick.setTimeout = .ok ()
  answer : ∃ e, tick.answer = .error e ∧ e.kind = .interrupted
  after : tick.after < deadline

namespace Socket

/-- The calls that move something. -/
def moving (s : Socket) : Nat := s.ticks.countP fun tick => tick.answer.isOk

/-- A peer that takes `need` bytes and flushes, at least a byte at a time. -/
structure Open (s : Socket) (need : Nat) : Prop where
  ticks : ∀ tick ∈ s.ticks, tick.Moves s.deadline
  enough : need ≤ s.ticks.length

/-- A peer that gives all of its input and then the end, in any pieces and with any interruptions. -/
structure Fed (s : Socket) : Prop where
  ticks : ∀ tick ∈ s.ticks, tick.Moves s.deadline ∨ tick.Interrupts s.deadline
  enough : s.input.length < s.moving

/-- The next state, but for what is moved. -/
structure Next (s u : Socket) (ticks : List Tick) : Prop where
  ticks : u.ticks = ticks
  input : u.input = s.input
  output : u.output = s.output
  deadline : u.deadline = s.deadline

theorem call_moves {α : Type} (move : Socket → Nat → α × Socket) (hmove : ∀ u n, (move u n).2.deadline = u.deadline)
    {s : Socket} {tick : Tick} {ticks : List Tick} (hticks : s.ticks = tick :: ticks) (h : tick.Moves s.deadline) :
    ∃ u n, 0 < n ∧ s.Next u ticks ∧ call move s = .ok (move u n).1 (move u n).2 := by
  obtain ⟨hbefore, hset, ⟨n, hanswer, hpos⟩, hafter⟩ := h
  refine ⟨{ s with ticks, calls := s.calls ++ [⟨tick.before, s.deadline - tick.before⟩] }, n, hpos, ⟨rfl, rfl, rfl, rfl⟩, ?_⟩
  simp only [call, hticks, remaining, if_pos hbefore, hset, hanswer, hmove, if_pos hafter]

theorem call_interrupted {α : Type} (move : Socket → Nat → α × Socket) {s : Socket} {tick : Tick} {ticks : List Tick}
    (hticks : s.ticks = tick :: ticks) (h : tick.Interrupts s.deadline) :
    ∃ u e, e.kind = .interrupted ∧ s.Next u ticks ∧ call move s = .err e u := by
  obtain ⟨hbefore, hset, ⟨e, hanswer, hkind⟩, hafter⟩ := h
  refine ⟨{ s with ticks, calls := s.calls ++ [⟨tick.before, s.deadline - tick.before⟩] }, e, hkind, ⟨rfl, rfl, rfl, rfl⟩, ?_⟩
  simp only [call, hticks, remaining, if_pos hbefore, if_pos hafter, hset, hanswer]

/-! ### Reading -/

theorem Fed.next {s u : Socket} {tick : Tick} {ticks : List Tick} (h : s.Fed) (hticks : s.ticks = tick :: ticks)
    (hu : u.ticks = ticks) (hdeadline : u.deadline = s.deadline) :
    ∀ t ∈ u.ticks, t.Moves u.deadline ∨ t.Interrupts u.deadline := by
  intro t ht
  rw [hdeadline]
  rw [hu] at ht
  exact h.ticks t (by rw [hticks]; exact List.mem_cons_of_mem _ ht)

/-- A fed socket as a stream: nothing fails. -/
def feed : Source Socket where
  inv := Fed
  gives bs s t := s.input = bs ++ t.input
  left s := s.ticks.length
  ended s := s.input = []
  faulty := False
  gives_nil _ := rfl
  gives_append := by
    rintro a b s t u hs ht
    rw [hs, ht, List.append_assoc]

theorem feed_reads : feed.Reads read := by
  intro length s hlength hfed
  unfold read
  cases hticks : s.ticks with
  | nil =>
    have := hfed.enough
    rw [moving, hticks] at this
    simp at this
  | cons tick ticks =>
    have henough := hfed.enough
    rw [moving, hticks] at henough
    rcases hfed.ticks tick (by rw [hticks]; simp) with hmoves | hinterrupts
    · obtain ⟨u, n, hn, hnext, hcall⟩ := call_moves (fun s n => (s.input.take (min n length),
        ({ s with input := s.input.drop (min n length) } : Socket))) (fun _ _ => rfl) hticks hmoves
      obtain ⟨m, hm, -⟩ := hmoves.answer
      rw [List.countP_cons_of_pos (by rw [hm]; rfl)] at henough
      rw [hcall]
      refine ⟨?_, ?_, ?_, ?_⟩
      · rw [List.length_take]
        omega
      · show s.input = _ ++ u.input.drop (min n length)
        rw [List.take_append_drop, hnext.input]
      · show u.ticks.length < s.ticks.length
        rw [hnext.ticks, hticks, List.length_cons]
        omega
      · by_cases hnone : u.input = []
        · rw [if_pos (by rw [hnone]; exact List.take_nil)]
          show u.input.drop _ = []
          rw [hnone, List.drop_nil]
        · -- a byte was there, so at least one is gone
          have hpos : 0 < u.input.length := List.length_pos_iff.2 hnone
          have hmin : 0 < min n length := by omega
          have hne : u.input.take (min n length) ≠ [] := by
            rw [← List.length_pos_iff, List.length_take]
            omega
          rw [if_neg hne]
          refine ⟨hfed.next hticks hnext.ticks hnext.deadline, ?_⟩
          show (u.input.drop (min n length)).length < u.ticks.countP _
          rw [List.length_drop, hnext.ticks, hnext.input]
          rw [hnext.input] at hpos
          omega
    · obtain ⟨u, e, hkind, hnext, hcall⟩ := call_interrupted (fun s n => (s.input.take (min n length),
        ({ s with input := s.input.drop (min n length) } : Socket))) hticks hinterrupts
      obtain ⟨e', he', -⟩ := hinterrupts.answer
      rw [List.countP_cons_of_neg (by rw [he']; simp [Except.isOk, Except.toBool])] at henough
      rw [hcall]
      show if e.kind = .interrupted then _ else False
      rw [if_pos hkind]
      refine ⟨⟨hfed.next hticks hnext.ticks hnext.deadline, ?_⟩, hnext.input.symm, ?_⟩
      · rw [moving, hnext.ticks, hnext.input]
        exact henough
      · show u.ticks.length < s.ticks.length
        rw [hnext.ticks, hticks, List.length_cons]
        omega

theorem feed_feeds : feed.Feeds reader := readExact_feeds (fun _ => Nat.lt_succ_self _) feed_reads

/-! ### Writing -/

theorem Open.next {s u : Socket} {tick : Tick} {ticks : List Tick} {need : Nat} (h : s.Open (need + 1))
    (hticks : s.ticks = tick :: ticks) (hu : u.ticks = ticks) (hdeadline : u.deadline = s.deadline) : u.Open need := by
  obtain ⟨hall, henough⟩ := h
  rw [hticks] at hall henough
  refine ⟨fun t ht => ?_, ?_⟩
  · rw [hdeadline]
    rw [hu] at ht
    exact hall t (List.mem_cons_of_mem _ ht)
  · rw [hu]
    rw [List.length_cons] at henough
    omega

theorem Open.first {s : Socket} {need : Nat} (h : s.Open (need + 1)) :
    ∃ tick ticks, s.ticks = tick :: ticks ∧ tick.Moves s.deadline := by
  cases hticks : s.ticks with
  | nil =>
    have := h.enough
    rw [hticks, List.length_nil] at this
    omega
  | cons tick ticks => exact ⟨tick, ticks, rfl, h.ticks tick (by rw [hticks]; simp)⟩

/-- An open socket takes the whole buffer. -/
theorem writeAll_open (buf : Bytes) {s : Socket} {need : Nat} (hs : s.Open (need + buf.length)) :
    Action.Ok False (fun _ _ => False) (fun _ t => t.Open need) (writer.writeAll buf s) := by
  refine Action.loop_ok (fun rest t => t.Open (need + rest.length)) (fun _ t => t.ticks.length) ?_ _ _ _ hs
    (Nat.lt_succ_self _)
  intro rest t ht
  rw [writeAllStep]
  by_cases hrest : rest = []
  · subst hrest
    exact ht
  rw [if_neg (by simpa using hrest)]
  have hpos : 0 < rest.length := List.length_pos_iff.2 hrest
  have hsucc : t.Open (need + (rest.length - 1) + 1) := by
    have : need + (rest.length - 1) + 1 = need + rest.length := by omega
    rwa [this]
  obtain ⟨tick, ticks, hticks, hmoves⟩ := hsucc.first
  obtain ⟨u, n, hn, hnext, hcall⟩ := call_moves (fun s n => (min n rest.length,
    ({ s with output := s.output ++ rest.take (min n rest.length) } : Socket))) (fun _ _ => rfl) hticks hmoves
  have hwrite : ((write rest).try' : Action IoError Socket (Except IoError Nat)) t =
      .ok (.ok (min n rest.length)) { u with output := u.output ++ rest.take (min n rest.length) } := by
    rw [Action.try', write, hcall]
  refine Action.Ok.of_ok hwrite ?_
  obtain ⟨k, hk⟩ : ∃ k, min n rest.length = k + 1 := ⟨min n rest.length - 1, by omega⟩
  have hslice : (Action.lift (⟨.other, ·⟩) (sliceFrom rest (k + 1)) : Action IoError Socket Bytes)
      { u with output := u.output ++ rest.take (k + 1) } =
        .ok (rest.drop (k + 1)) { u with output := u.output ++ rest.take (k + 1) } := by
    rw [sliceFrom_ok (by omega)]
    rfl
  rw [hk]
  refine Action.Ok.of_ok hslice ⟨?_, ?_⟩
  · have hone := hsucc.next hticks hnext.ticks hnext.deadline
    refine ⟨hone.ticks, Nat.le_trans ?_ hone.enough⟩
    rw [List.length_drop]
    omega
  · show u.ticks.length < t.ticks.length
    rw [hnext.ticks, hticks, List.length_cons]
    omega

theorem flush_open {s : Socket} {need : Nat} (hs : s.Open (need + 1)) :
    Action.Ok False (fun _ _ => False) (fun _ t => t.Open need) (writer.flush s) := by
  obtain ⟨tick, ticks, hticks, hmoves⟩ := hs.first
  obtain ⟨u, n, -, hnext, hcall⟩ := call_moves (fun s _ => ((), s)) (fun _ _ => rfl) hticks hmoves
  have hflush : writer.flush s = .ok () u := hcall
  rw [hflush]
  exact hs.next hticks hnext.ticks hnext.deadline

end Socket

/-- An open socket takes a frame. -/
theorem writeFrame_open (f : Frame) (hf : LegalPacket f.packet) {s : Socket} {need : Nat}
    (hs : s.Open (need + (f.encode.length + 1))) :
    Action.Ok False (fun _ _ => False) (fun _ t => t.Open need) (writeFrame Socket.writer f s) := by
  have hbuf : s.Open (need + 1 + f.encode.length) := by
    have hneed : need + 1 + f.encode.length = need + (f.encode.length + 1) := by omega
    rwa [hneed]
  rw [writeFrame_eq Socket.writer hf]
  exact Action.Ok.mapErr ((Socket.writeAll_open f.encode hbuf).bind fun _ t ht => Socket.flush_open ht) fun _ _ h => h

/-- What frames cost an open socket: their bytes, and a flush each. -/
def framesCost (fs : List Frame) : Nat := (encodeAll fs).length + fs.length

theorem writeFrames_open : ∀ {fs : List Frame}, (∀ f ∈ fs, LegalPacket f.packet) → ∀ {s : Socket} {need : Nat},
    s.Open (need + framesCost fs) →
    Action.Ok False (fun _ _ => False) (fun _ t => t.Open need) (writeFrames Socket.writer fs s)
  | [], _, s, need, hs => hs
  | f :: fs, hfs, s, need, hs => by
    have hcost : need + framesCost (f :: fs) = need + framesCost fs + (f.encode.length + 1) := by
      simp only [framesCost, encodeAll_cons, List.length_append, List.length_cons]
      omega
    rw [hcost] at hs
    rw [writeFrames]
    exact (writeFrame_open f (hfs f (by simp)) hs).bind fun _ t ht => writeFrames_open (fun g hg => hfs g (by simp [hg])) ht

/-- **A fed socket is read to its end**: the packets at the front of its input, and nothing after them is one. -/
theorem readPackets_ok {s : Socket} (hs : s.Fed) (buffer : Bytes) :
    ∃ packets ending t rest, readPackets Socket.reader s.fuel buffer s = .ok (packets, ending) t ∧
      s.input = packets.flatMap encodePacket ++ rest ∧ (∀ p ∈ packets, LegalPacket p) ∧ NoPacket rest ending ∧
      (ending = none → t.input = []) := by
  have hloop : Action.Ok False (fun _ _ => False)
      (fun r t => ∃ rest, s.input = r.1.flatMap encodePacket ++ rest ∧ (∀ p ∈ r.1, LegalPacket p) ∧ NoPacket rest r.2 ∧
        (r.2 = none → t.input = []))
      (readPackets Socket.reader s.fuel buffer s) := by
    refine Action.loop_ok (fun v t => t.Fed ∧ s.input = v.1.flatMap encodePacket ++ t.input ∧ ∀ p ∈ v.1, LegalPacket p)
      (fun _ t => t.ticks.length) ?_ s.fuel ([], buffer) s ⟨hs, rfl, by simp⟩ (Nat.lt_succ_self _)
    rintro ⟨packets, buffer⟩ t ⟨hfed, hinput, hlegal⟩
    refine (readPacketsStep_ok Socket.feed_feeds packets buffer hfed).mono (fun _ _ h => h) fun r u hr => ?_
    cases r with
    | again v =>
      obtain ⟨packets', buffer'⟩ := v
      obtain ⟨p, rfl, -, hp, hinv, hgives, hless⟩ := hr
      have hgives : t.input = encodePacket p ++ u.input := hgives
      refine ⟨⟨hinv, ?_, ?_⟩, hless⟩
      · rw [hinput, hgives, List.flatMap_append, List.flatMap_singleton, List.append_assoc]
      · intro q hq
        rcases List.mem_append.1 hq with hq | hq
        · exact hlegal q hq
        · obtain rfl := List.mem_singleton.1 hq
          exact hp
    | done r =>
      obtain ⟨packets', ending⟩ := r
      obtain ⟨rfl, hfaulty | ⟨bs, hgives, hending⟩⟩ := hr
      · exact hfaulty.elim
      have hgives : t.input = bs ++ u.input := hgives
      refine ⟨t.input, hinput, hlegal, ?_⟩
      cases ending with
      | none =>
        obtain ⟨hlen, hended⟩ := hending
        have hended : u.input = [] := hended
        exact ⟨by rw [hgives, hended, List.append_nil]; exact hlen, fun _ => hended⟩
      | some e =>
        refine ⟨?_, nofun⟩
        rcases hending with ⟨hcut, hended⟩ | hbad
        · have hended : u.input = [] := hended
          exact Or.inl (by rw [hgives, hended, List.append_nil]; exact hcut)
        · exact Or.inr ⟨bs, u.input, hbad, hgives⟩
  cases hrun : readPackets Socket.reader s.fuel buffer s with
  | ok r t =>
    rw [hrun] at hloop
    obtain ⟨rest, hrest⟩ := hloop
    exact ⟨r.1, r.2, t, rest, rfl, hrest⟩
  | err e t => rw [hrun] at hloop; exact hloop.elim
  | panic => rw [hrun] at hloop; exact hloop.elim
  | pending t => rw [hrun] at hloop; exact hloop.elim

/-- On any socket, whatever fails, the packets read are the front of the input. -/
theorem readPackets_prefix (fuel : Nat) (buffer : Bytes) {s t : Socket} {packets : List Bytes} {ending : Option IoError}
    (h : readPackets Socket.reader fuel buffer s = .ok (packets, ending) t) :
    ∃ rest, s.input = packets.flatMap encodePacket ++ rest := by
  have hstep : ∀ fuel (v : List Bytes × Bytes) (u : Socket), s.input = v.1.flatMap encodePacket ++ u.input →
      ∀ r w, Action.loop (readPacketsStep Socket.reader) fuel v u = .ok r w →
        ∃ rest, s.input = r.1.flatMap encodePacket ++ rest := by
    intro fuel
    induction fuel with
    | zero => intro v u _ r w hrun; cases hrun
    | succ fuel ih =>
      rintro ⟨packets, buffer⟩ u hu r w hrun
      rw [Action.loop] at hrun
      obtain ⟨flow, u', hone, hnext⟩ := Action.bind_eq_ok.1 hrun
      have hok := readPacketsStep_ok Socket.reader_feeds packets buffer (s := u) trivial
      rw [hone] at hok
      cases flow with
      | again v' =>
        obtain ⟨packets', buffer'⟩ := v'
        obtain ⟨p, rfl, -, -, -, ⟨hgives, -⟩, -⟩ := hok
        refine ih _ u' ?_ r w hnext
        rw [hu, hgives, List.flatMap_append, List.flatMap_singleton, List.append_assoc]
      | done r' =>
        obtain rfl : r' = r := (Outcome.ok.inj hnext).1
        exact ⟨u.input, by rw [hu, hok.1]⟩
  exact hstep fuel ([], buffer) s rfl _ t h

/-- **The framing round trip.** Frames within the limit are written whole and in order or an error is
reported, however little is taken at a time, and a peer that keeps taking bytes takes them all.
A peer that gives back what was written, in any pieces, is read as exactly those frames and then
its end, into one buffer whatever it held before. Conversely, the packets read from any stream
are a prefix of it, and on one that is given to its end what follows them is empty, cut off, or a
length of 0 or above 1 MiB. -/
theorem framing_round_trip {fs : List Frame} (hfs : ∀ f ∈ fs, 1 + f.payload.length ≤ 1024 * 1024) :
    (∀ s s', writeFrames Socket.writer fs s = .ok () s' → s'.output = s.output ++ encodeAll fs) ∧
    (∀ s, s.Open (framesCost fs) → ∃ s', writeFrames Socket.writer fs s = .ok () s') ∧
    (∀ s s' t buffer, writeFrames Socket.writer fs s = .ok () s' → s'.output = s.output ++ t.input → t.Fed →
      ∃ t', readPackets Socket.reader t.fuel buffer t = .ok (fs.map Frame.packet, none) t' ∧ t'.input = []) ∧
    (∀ t t' fuel buffer packets ending, readPackets Socket.reader fuel buffer t = .ok (packets, ending) t' →
      ∃ rest, t.input = packets.flatMap encodePacket ++ rest) ∧
    (∀ t buffer, t.Fed → ∃ packets ending t' rest, readPackets Socket.reader t.fuel buffer t = .ok (packets, ending) t' ∧
      t.input = packets.flatMap encodePacket ++ rest ∧
      (rest.length < 4 ∨ CutOff rest ∨ ∃ bad more, BadLength bad ∧ rest = bad ++ more)) := by
  have hlegal : ∀ f ∈ fs, LegalPacket f.packet := by
    intro f hf
    have hsize : maxPacket = 1024 * 1024 := rfl
    have := hfs f hf
    refine ⟨by simp [Frame.packet], ?_⟩
    rw [Frame.packet, List.length_cons]
    omega
  have hwritten : ∀ s s', writeFrames Socket.writer fs s = .ok () s' → s'.output = s.output ++ encodeAll fs := by
    intro s s' h
    have hok := writeFrames_ok Socket.writer_takes hlegal (s := s) trivial
    rw [h] at hok
    exact hok.takes.1
  refine ⟨hwritten, fun s hopen => ?_, fun s s' t buffer hwrite hsame hfed => ?_,
    fun t t' fuel buffer packets ending h => readPackets_prefix fuel buffer h, fun t buffer hfed => ?_⟩
  · have hok := writeFrames_open hlegal (show s.Open (0 + framesCost fs) by rwa [Nat.zero_add])
    cases hrun : writeFrames Socket.writer fs s with
    | ok u s' => exact ⟨s', rfl⟩
    | err e s' => rw [hrun] at hok; exact hok.elim
    | panic => rw [hrun] at hok; exact hok.elim
    | pending s' => rw [hrun] at hok; exact hok.elim
  · obtain ⟨packets, ending, t', rest, hrun, hinput, hpackets, hrest, hend⟩ := readPackets_ok hfed buffer
    have hstream : t.input = (fs.map Frame.packet).flatMap encodePacket := by
      rw [← encodeAll_eq]
      exact List.append_cancel_left (hsame.symm.trans (hwritten s s' hwrite))
    have hframes : ∀ p ∈ fs.map Frame.packet, LegalPacket p := by
      intro p hp
      obtain ⟨f, hf, rfl⟩ := List.mem_map.1 hp
      exact hlegal f hf
    rw [hstream] at hinput
    obtain ⟨rfl, rfl⟩ := packets_unique hpackets hframes hrest hinput.symm
    cases ending with
    | none => exact ⟨t', hrun, hend rfl⟩
    | some e =>
      -- nothing was left that could have been an error
      rcases hrest with ⟨n, part, hcut, -⟩ | ⟨bad, more, ⟨n, rfl, -⟩, heq⟩
      · simp [toBeBytes] at hcut
      · simp [toBeBytes] at heq
  · obtain ⟨packets, ending, t', rest, hrun, hinput, -, hrest, -⟩ := readPackets_ok hfed buffer
    refine ⟨packets, ending, t', rest, hrun, hinput, ?_⟩
    cases ending with
    | none => exact Or.inl hrest
    | some e => exact Or.inr hrest

/-- A long frame, a status and an empty macro packet. -/
def exampleFrames : List Frame := [⟨byte 'L', exampleFrom.wire⟩, continueFrame, ⟨byte 'D', []⟩]

/-- A peer that takes two bytes at a time. -/
def exampleWriter : Socket where
  deadline := 100
  ticks := List.replicate 60 ⟨0, .ok (), .ok 2, 0⟩
  input := []

/-- A peer that gives three bytes at a time, with an interruption first. -/
def exampleFeed : Socket where
  deadline := 100
  ticks := ⟨0, .ok (), .error ⟨.interrupted, "interrupted"⟩, 0⟩ :: List.replicate 60 ⟨0, .ok (), .ok 3, 0⟩
  input := encodeAll exampleFrames

theorem framing_round_trip_pieces : ∃ s' t', writeFrames Socket.writer exampleFrames exampleWriter = .ok () s' ∧
    readPackets Socket.reader exampleFeed.fuel [] exampleFeed = .ok (exampleFrames.map Frame.packet, none) t' := by
  have hframes : ∀ f ∈ exampleFrames, 1 + f.payload.length ≤ 1024 * 1024 := fun f hf => by
    simpa using List.all_eq_true.1 (by decide : (exampleFrames.all fun f => 1 + f.payload.length ≤ 1024 * 1024) = true) f hf
  have hopen : exampleWriter.Open (framesCost exampleFrames) := by
    refine ⟨fun tick ht => ?_, by decide⟩
    obtain rfl := List.eq_of_mem_replicate ht
    exact ⟨by decide, rfl, ⟨2, rfl, by decide⟩, by decide⟩
  have hfed : exampleFeed.Fed := by
    refine ⟨fun tick ht => ?_, by decide⟩
    rcases List.mem_cons.1 ht with rfl | ht
    · exact Or.inr ⟨by decide, rfl, ⟨_, rfl, rfl⟩, by decide⟩
    · obtain rfl := List.eq_of_mem_replicate ht
      exact Or.inl ⟨by decide, rfl, ⟨3, rfl, by decide⟩, by decide⟩
  obtain ⟨hwritten, htotal, hback, -⟩ := framing_round_trip hframes
  obtain ⟨s', hwrite⟩ := htotal exampleWriter hopen
  obtain ⟨t', hread, -⟩ := hback exampleWriter s' exampleFeed [] hwrite (hwritten _ _ hwrite) hfed
  exact ⟨s', t', hwrite, hread⟩

end DkimLite
