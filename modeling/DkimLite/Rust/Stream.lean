import DkimLite.Rust.Action

/-!
# `std::io`: reading and writing in pieces

`readExact` and `writeAll` are the loops that `std::io::Read` and `std::io::Write` provide on top of
a single `read` and `write`: they retry interrupted calls and pass every other error on.

A `Source` is what is known of a stream that is read, a `Sink` of one that is written: which bytes
went by between two of its states, and how many calls it still answers. `readExact_feeds` and
`writeAll_takes` say that the bytes that go by do not depend on how they are cut up.
-/

namespace Rust

inductive ErrorKind where
  | unexpectedEof | writeZero | interrupted | timedOut | invalidData | other
deriving DecidableEq

/-- `std::io::Error`: its kind and what it displays. -/
structure IoError where
  kind : ErrorKind
  text : String
deriving DecidableEq

section
variable {σ : Type}

/-- One iteration of `Read::read_exact`: what is filled and what is left of the buffer. -/
def readExactStep (read : Nat → Action IoError σ Bytes) : Bytes × Bytes → Action IoError σ (Flow (Bytes × Bytes) Bytes)
  | (filled, buf) =>
    if buf.isEmpty then return .done filled
    else do
      match ← (read buf.length).try' with
      | .ok [] => Action.throw ⟨.unexpectedEof, "failed to fill whole buffer"⟩
      | .ok data => do
        let rest ← Action.lift (⟨.other, ·⟩) (sliceFrom buf data.length)
        return .again (filled ++ data, rest)
      | .error e => if e.kind = .interrupted then return .again (filled, buf) else Action.throw e

/-- `Read::read_exact` into `buf`. -/
def readExact (read : Nat → Action IoError σ Bytes) (fuel : σ → Nat) (buf : Bytes) : Action IoError σ Bytes :=
  fun s => Action.loop (readExactStep read) (fuel s) ([], buf) s

/-- One iteration of `Write::write_all`. -/
def writeAllStep (write : Bytes → Action IoError σ Nat) (buf : Bytes) : Action IoError σ (Flow Bytes Unit) :=
  if buf.isEmpty then return .done ()
  else do
    match ← (write buf).try' with
    | .ok 0 => Action.throw ⟨.writeZero, "failed to write whole buffer"⟩
    | .ok n => do
      let rest ← Action.lift (⟨.other, ·⟩) (sliceFrom buf n)
      return .again rest
    | .error e => if e.kind = .interrupted then return .again buf else Action.throw e

/-- `Write::write_all` -/
def writeAll (write : Bytes → Action IoError σ Nat) (fuel : σ → Nat) (buf : Bytes) : Action IoError σ Unit :=
  fun s => Action.loop (writeAllStep write) (fuel s) buf s

/-- `impl Read`: what the code calls of it. -/
structure Reader (σ : Type) where
  readExact : Bytes → Action IoError σ Bytes

/-- `impl Write`: what the code calls of it. -/
structure Writer (σ : Type) where
  writeAll : Bytes → Action IoError σ Unit
  flush : Action IoError σ Unit

/-- A writer that takes everything, as a `Vec<u8>` does. -/
def recorder : Writer Bytes where
  writeAll bs := fun s => .ok () (s ++ bs)
  flush := return ()

/-! ## Reading -/

/-- A stream that is read. `gives bs s t`: the bytes `bs` were read on the way from `s` to `t`. A call
may fail (other than by an interruption) or wait only if `faulty`. -/
structure Source (σ : Type) where
  inv : σ → Prop
  gives : Bytes → σ → σ → Prop
  /-- the calls still answered -/
  left : σ → Nat
  /-- nothing is left to read -/
  ended : σ → Prop
  faulty : Prop
  gives_nil : ∀ s, gives [] s s
  gives_append : ∀ {a b s t u}, gives a s t → gives b t u → gives (a ++ b) s u

/-- What one call of `read` does. -/
def Source.Reads (src : Source σ) (read : Nat → Action IoError σ Bytes) : Prop :=
  ∀ n s, 0 < n → src.inv s → Action.Ok src.faulty
    (fun e t => if e.kind = .interrupted then src.inv t ∧ src.gives [] s t ∧ src.left t < src.left s else src.faulty)
    (fun bs t => bs.length ≤ n ∧ src.gives bs s t ∧ src.left t < src.left s ∧ if bs = [] then src.ended t else src.inv t)
    (read n s)

/-- What `read_exact` does: the buffer is filled, or the stream ended before it was. -/
def Source.Feeds (src : Source σ) (stream : Reader σ) : Prop :=
  ∀ buf s, src.inv s → Action.Ok src.faulty
    (fun e t => src.faulty ∨ e.kind = .unexpectedEof ∧ ∃ bs, bs.length < buf.length ∧ src.gives bs s t ∧ src.ended t)
    (fun bs t => bs.length = buf.length ∧ src.inv t ∧ src.gives bs s t ∧ src.left t ≤ src.left s ∧
      (0 < buf.length → src.left t < src.left s)) (stream.readExact buf s)

/-- **`read_exact` fills its buffer or fails**, however the data arrives. -/
theorem readExact_feeds {src : Source σ} {read : Nat → Action IoError σ Bytes} {fuel : σ → Nat}
    (hfuel : ∀ s, src.left s < fuel s) (hread : src.Reads read) : src.Feeds ⟨readExact read fuel⟩ := by
  intro buf s hs
  refine Action.loop_ok
    (fun (st : Bytes × Bytes) t => st.1.length + st.2.length = buf.length ∧ src.inv t ∧ src.gives st.1 s t ∧
      src.left t ≤ src.left s ∧ (0 < st.1.length → src.left t < src.left s))
    (fun _ t => src.left t) ?_ _ _ _ ⟨by simp, hs, src.gives_nil s, Nat.le_refl _, by simp⟩ (hfuel s)
  rintro ⟨filled, rest⟩ t ⟨hlen, hinv, hgives, hle, hlt⟩
  rw [readExactStep]
  by_cases hrest : rest = []
  · subst hrest
    exact ⟨by simpa using hlen, hinv, hgives, hle, fun hpos => hlt (by simpa [← hlen] using hpos)⟩
  have hpos : 0 < rest.length := List.length_pos_iff.2 hrest
  rw [if_neg (by simpa using hrest)]
  refine (hread rest.length t hpos hinv).try'.bind fun r u hr => ?_
  match r, hr with
  | .ok [], ⟨_, hu, _, hended⟩ =>
    refine Or.inr ⟨rfl, filled, by simp only at hlen ⊢; omega, ?_, hended⟩
    simpa using src.gives_append hgives hu
  | .ok (b :: data), ⟨hdata, hu, hless, hinv'⟩ =>
    have hslice : (Action.lift (⟨.other, ·⟩) (sliceFrom rest (b :: data).length) : Action IoError σ Bytes) u =
        .ok (rest.drop (b :: data).length) u := by rw [sliceFrom_ok hdata]; rfl
    refine Action.Ok.of_ok hslice ⟨⟨?_, hinv', src.gives_append hgives hu, by omega, fun _ => by omega⟩, hless⟩
    simp only [List.length_append, List.length_drop] at hlen hdata ⊢
    omega
  | .error e, he =>
    simp only at he ⊢
    by_cases hint : e.kind = .interrupted
    · rw [if_pos hint] at he
      rw [if_pos hint]
      obtain ⟨hinv', hu, hless⟩ := he
      exact ⟨⟨hlen, hinv', by simpa using src.gives_append hgives hu, by omega, fun _ => by omega⟩, hless⟩
    · rw [if_neg hint] at he
      rw [if_neg hint]
      exact Or.inl he

/-! ## Writing -/

/-- A stream that is written. `takes bs s t`: the bytes `bs` were written on the way from `s` to `t`. -/
structure Sink (σ : Type) where
  inv : σ → Prop
  takes : Bytes → σ → σ → Prop
  /-- the calls still answered -/
  left : σ → Nat
  faulty : Prop
  takes_nil : ∀ s, takes [] s s
  takes_append : ∀ {a b s t u}, takes a s t → takes b t u → takes (a ++ b) s u

/-- What one call of `write` does. -/
def Sink.Writes (snk : Sink σ) (write : Bytes → Action IoError σ Nat) : Prop :=
  ∀ buf s, snk.inv s → Action.Ok snk.faulty
    (fun e t => if e.kind = .interrupted then snk.inv t ∧ snk.takes [] s t ∧ snk.left t < snk.left s else snk.faulty)
    (fun n t => n ≤ buf.length ∧ (n = 0 → snk.faulty) ∧ snk.inv t ∧ snk.takes (buf.take n) s t ∧ snk.left t < snk.left s)
    (write buf s)

/-- `bs` was written and nothing else. -/
structure Sink.Took (snk : Sink σ) (bs : Bytes) (s t : σ) : Prop where
  inv : snk.inv t
  takes : snk.takes bs s t
  left : snk.left t ≤ snk.left s

theorem Sink.Took.nil {snk : Sink σ} {s : σ} (h : snk.inv s) : snk.Took [] s s := ⟨h, snk.takes_nil s, Nat.le_refl _⟩

theorem Sink.Took.append {snk : Sink σ} {a b : Bytes} {s t u : σ} (hs : snk.Took a s t) (ht : snk.Took b t u) :
    snk.Took (a ++ b) s u :=
  ⟨ht.inv, snk.takes_append hs.takes ht.takes, Nat.le_trans ht.left hs.left⟩

/-- What a writer does: all of the buffer is written. -/
structure Sink.Takes (snk : Sink σ) (stream : Writer σ) : Prop where
  writeAll : ∀ buf s, snk.inv s →
    Action.Ok snk.faulty (fun _ _ => snk.faulty) (fun _ t => snk.Took buf s t) (stream.writeAll buf s)
  flush : ∀ s, snk.inv s →
    Action.Ok snk.faulty (fun _ _ => snk.faulty) (fun _ t => snk.Took [] s t) (stream.flush s)

/-- **`write_all` writes everything or fails**, however little is taken at a time. -/
theorem writeAll_takes {snk : Sink σ} {write : Bytes → Action IoError σ Nat} {fuel : σ → Nat}
    (hfuel : ∀ s, snk.left s < fuel s) (hwrite : snk.Writes write) (buf : Bytes) (s : σ) (hs : snk.inv s) :
    Action.Ok snk.faulty (fun _ _ => snk.faulty) (fun _ t => snk.Took buf s t) (writeAll write fuel buf s) := by
  refine Action.loop_ok (fun rest t => ∃ done, buf = done ++ rest ∧ snk.Took done s t) (fun _ t => snk.left t) ?_ _ _ _
    ⟨[], rfl, .nil hs⟩ (hfuel s)
  rintro rest t ⟨done, hbuf, htook⟩
  rw [writeAllStep]
  by_cases hrest : rest = []
  · subst hrest
    rw [List.append_nil] at hbuf
    exact hbuf ▸ htook
  rw [if_neg (by simpa using hrest)]
  refine (hwrite rest t htook.inv).try'.bind fun r u hr => ?_
  match r, hr with
  | .ok 0, ⟨_, hzero, _⟩ => exact hzero rfl
  | .ok (n + 1), ⟨hn, _, hinv, hu, hless⟩ =>
    have hslice : (Action.lift (⟨.other, ·⟩) (sliceFrom rest (n + 1)) : Action IoError σ Bytes) u =
        .ok (rest.drop (n + 1)) u := by rw [sliceFrom_ok hn]; rfl
    refine Action.Ok.of_ok hslice ⟨⟨done ++ rest.take (n + 1), ?_, htook.append ⟨hinv, hu, Nat.le_of_lt hless⟩⟩, hless⟩
    rw [List.append_assoc, List.take_append_drop, hbuf]
  | .error e, he =>
    simp only at he ⊢
    by_cases hint : e.kind = .interrupted
    · rw [if_pos hint] at he
      rw [if_pos hint]
      obtain ⟨hinv, hu, hless⟩ := he
      exact ⟨⟨done, hbuf, by simpa using htook.append ⟨hinv, hu, Nat.le_of_lt hless⟩⟩, hless⟩
    · rw [if_neg hint] at he
      rw [if_neg hint]
      exact he

/-- What a `Vec<u8>` takes. -/
def recording : Sink Bytes where
  inv _ := True
  takes bs s t := t = s ++ bs
  left _ := 0
  faulty := False
  takes_nil s := (List.append_nil s).symm
  takes_append := by rintro a b s t u rfl rfl; rw [List.append_assoc]

theorem recorder_takes : recording.Takes recorder where
  writeAll _ _ _ := ⟨trivial, rfl, Nat.le_refl 0⟩
  flush s _ := ⟨trivial, (List.append_nil s).symm, Nat.le_refl 0⟩

end

end Rust
