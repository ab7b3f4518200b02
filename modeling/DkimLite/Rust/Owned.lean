import DkimLite.Rust.Disk
import Mathlib.Data.Set.Insert

/-!
# What a process made

`Disk.Spared i` is a step that leaves everything alone that the process `i` did not make, and
`Disk.Kept i` one that leaves alone what it did make. A call is `Spared` when what it touches is
the caller's own (`FsCall.spared`); a step spared by one process keeps what another made
(`Disk.Spared.kept`). `Disk.Holds` lists the names a process holds.
-/

namespace Rust
variable {ι Dir : Type} {i j : ι} {s s' s₁ s₂ s₃ : Disk Dir ι}

/-! ## Steps -/

namespace Disk

/-- Nothing is changed but entries and inodes of `i`, and no inode is freed. -/
structure Spared (i : ι) (s s' : Disk Dir ι) : Prop where
  names : ∀ p, s'.names p = s.names p ∨
    (∀ e, s.names p = some e → e.owner = some i) ∧ ∀ e, s'.names p = some e → e.owner = some i
  inodes : ∀ n, s'.inodes n = s.inodes n ∨
    (∀ x, s.inodes n = some x → x.owner = some i) ∧ ∃ x, s'.inodes n = some x ∧ x.owner = some i

/-- The entries and inodes of `i` are the same. -/
structure Kept (i : ι) (s s' : Disk Dir ι) : Prop where
  names : ∀ p e, e.owner = some i → (s'.names p = some e ↔ s.names p = some e)
  inodes : ∀ n x, x.owner = some i → (s'.inodes n = some x ↔ s.inodes n = some x)

/-- Files are created by nobody in the model. -/
structure Grown (s s' : Disk Dir ι) : Prop where
  names : ∀ p, s'.names p = s.names p ∨ s.names p = none ∧ ∀ e, s'.names p = some e → e.owner = none
  inodes : ∀ n, s'.inodes n = s.inodes n ∨ s.inodes n = none ∧ ∀ x, s'.inodes n = some x → x.owner = none

theorem Spared.refl (i : ι) (s : Disk Dir ι) : Spared i s s := ⟨fun _ => Or.inl rfl, fun _ => Or.inl rfl⟩

theorem kept_interference (i : ι) : Interference (Kept i : Disk Dir ι → Disk Dir ι → Prop) where
  refl _ := ⟨fun _ _ _ => Iff.rfl, fun _ _ _ => Iff.rfl⟩
  trans h h' := ⟨fun p e he => (h'.names p e he).trans (h.names p e he), fun n x hx => (h'.inodes n x hx).trans (h.inodes n x hx)⟩

/-- **What one process spares, another one keeps.** -/
theorem Spared.kept (h : Spared j s s') (hij : j ≠ i) : Kept i s s' := by
  constructor
  · intro p e he
    rcases h.names p with hsame | ⟨hold, hnew⟩
    · rw [hsame]
    · have hno : e.owner ≠ some j := by rw [he]; simpa using hij.symm
      exact ⟨fun hp => absurd (hnew e hp) hno, fun hp => absurd (hold e hp) hno⟩
  · intro n x hx
    rcases h.inodes n with hsame | ⟨hold, y, hy, hyj⟩
    · rw [hsame]
    · have hno : x.owner ≠ some j := by rw [hx]; simpa using hij.symm
      refine ⟨fun hn => absurd ?_ hno, fun hn => absurd (hold x hn) hno⟩
      rw [hy, Option.some.injEq] at hn
      rwa [← hn]

theorem Grown.kept (h : Grown s s') : Kept i s s' := by
  constructor
  · intro p e he
    rcases h.names p with hsame | ⟨hold, hnew⟩
    · rw [hsame]
    · rw [hold]
      exact ⟨fun hp => absurd ((hnew e hp).symm.trans he) (by simp), fun hp => by cases hp⟩
  · intro n x hx
    rcases h.inodes n with hsame | ⟨hold, hnew⟩
    · rw [hsame]
    · rw [hold]
      exact ⟨fun hn => absurd ((hnew x hn).symm.trans hx) (by simp), fun hn => by cases hn⟩

/-! ## The names a process holds -/

/-- The entries of `i` are those named in `held`, and all stand for the inode `n`. -/
def Holds (i : ι) (held : Set (Dir × Bytes)) (n : Nat) (s : Disk Dir ι) : Prop :=
  ∀ p m, s.names p = some ⟨m, some i⟩ ↔ p ∈ held ∧ m = n

section
variable {held : Set (Dir × Bytes)} {n : Nat}

theorem holds_stable : Stable (Kept i) (Holds i held n : Disk Dir ι → Prop) := fun _ _ hs h p m =>
  (hs.names p ⟨m, some i⟩ rfl).trans (h p m)

theorem Holds.entry (h : Holds i held n s) {p : Dir × Bytes} (hp : p ∈ held) : s.names p = some ⟨n, some i⟩ :=
  (h p n).2 ⟨hp, rfl⟩

theorem Holds.none_held (h : Holds i ∅ n s) (m : Nat) : Holds i ∅ m s := by
  intro p k
  rw [h p k]
  simp

/-- The names held, and what stands under them. -/
structure Knows (i : ι) (held : Set (Dir × Bytes)) (n : Nat) (x : Inode ι) (s : Disk Dir ι) : Prop where
  holds : Holds i held n s
  inode : s.inodes n = some x
  owner : x.owner = some i

theorem knows_stable {x : Inode ι} : Stable (Kept i) (Knows i held n x : Disk Dir ι → Prop) := fun _ _ hs h =>
  ⟨holds_stable hs h.holds, (hs.inodes n x h.owner).2 h.inode, h.owner⟩

theorem Knows.setInode {x y : Inode ι} (h : Knows i held n x s) (hy : y.owner = some i) :
    Knows i held n y (s.setInode n y) :=
  ⟨h.holds, by simp [Disk.setInode], hy⟩

theorem Knows.look {x : Inode ι} (h : Knows i held n x s) {p : Dir × Bytes} (hp : p ∈ held) : s.look p = some x := by
  rw [Disk.look, h.holds.entry hp]
  exact h.inode

variable [DecidableEq Dir]

theorem Holds.insert (h : Holds i held n s) {p : Dir × Bytes} (hp : s.names p = none) :
    Holds i (insert p held) n (s.setName p (some ⟨n, some i⟩)) := by
  intro q m
  by_cases hqp : q = p
  · subst hqp
    simp [setName, eq_comm]
  · simp [setName, h q m, Set.mem_insert_iff, hqp]

theorem Holds.remove (h : Holds i held n s) (p : Dir × Bytes) : Holds i (held \ {p}) n (s.setName p none) := by
  intro q m
  by_cases hqp : q = p
  · subst hqp
    simp [setName]
  · simp [setName, h q m, hqp]

end
end Disk

/-! ## Calls -/

section
variable [DecidableEq Dir] {resolve : Bytes → Dir}

/-- What the call changes, if it is there already, is the caller's own. -/
def FsCall.Own (resolve : Bytes → Dir) (i : ι) (s : Disk Dir ι) : FsCall → Prop
  | .setPermissions dir name _ => ∀ x, s.look (resolve dir, name) = some x → x.owner = some i
  | .writeAll file _ => ∀ x, s.inodes file = some x → x.owner = some i
  | .removeFile dir name => ∀ e, s.names (resolve dir, name) = some e → e.owner = some i
  | _ => True

theorem Disk.Spared.setName {p : Dir × Bytes} {o : Option (DirEntry ι)} (hold : ∀ e, s.names p = some e → e.owner = some i)
    (hnew : ∀ e, o = some e → e.owner = some i) : Disk.Spared i s (s.setName p o) := by
  refine ⟨fun q => ?_, fun _ => Or.inl rfl⟩
  by_cases hqp : q = p
  · subst hqp
    exact Or.inr ⟨hold, fun e he => hnew e (by simpa [Disk.setName] using he)⟩
  · exact Or.inl (by simp [Disk.setName, Function.update_of_ne hqp])

omit [DecidableEq Dir] in
theorem Disk.Spared.setInode {n : Nat} {x : Inode ι} (hold : ∀ y, s.inodes n = some y → y.owner = some i)
    (hx : x.owner = some i) : Disk.Spared i s (s.setInode n x) := by
  refine ⟨fun _ => Or.inl rfl, fun m => ?_⟩
  by_cases hmn : m = n
  · subst hmn
    exact Or.inr ⟨hold, x, by simp [Disk.setInode], hx⟩
  · exact Or.inl (by simp [Disk.setInode, Function.update_of_ne hmn])

/-- **A call on one's own files spares those of others.** -/
theorem FsCall.spared {c : FsCall} {a : c.Answer} (h : c.Acts resolve i s a s') (hown : c.Own resolve i s) :
    Disk.Spared i s s' := by
  rcases h with h | h
  · cases h with
    | «exists» | isDir | createExists | syncAll | linkExists | linkRefused | openDir | syncDir => exact .refl i s
    | nextSequence => exact ⟨fun _ => Or.inl rfl, fun _ => Or.inl rfl⟩
    | @createNew _ _ _ n _ hname hfree _ =>
      have hentry := Disk.Spared.setName (i := i) (s := s) (o := some ⟨n, some i⟩)
        (fun e he => by rw [hname] at he; cases he) (by rintro _ ⟨⟩; rfl)
      exact ⟨hentry.names, (Disk.Spared.setInode (s := s) (fun y hy => by rw [hfree] at hy; cases hy) rfl).inodes⟩
    | setPermissions hname hinode _ =>
      have hmine := hown _ (by rw [Disk.look, hname]; exact hinode)
      exact .setInode (fun y hy => by rw [hinode] at hy; cases hy; exact hmine) hmine
    | @writeAll _ _ _ x hinode _ => exact .setInode (fun y hy => hown y hy) (hown x hinode)
    | hardLink _ _ _ _ _ _ hname =>
      exact .setName (fun e he => by rw [hname] at he; cases he) (by rintro _ ⟨⟩; rfl)
    | removeFile _ _ => exact .setName (fun e he => hown e he) (by rintro _ ⟨⟩)
  · cases h with
    | @writeAll _ _ _ _ x _ hinode _ => exact .setInode (fun y hy => hown y hy) (hown x hinode)
    | _ => exact .refl i s

end

end Rust
