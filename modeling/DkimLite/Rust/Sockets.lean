import DkimLite.Rust.Bytes
import DkimLite.Rust.Prog

/-!
# Sockets in the file system, shared by processes

A socket bound to a path is a node there, until somebody removes it. `Places` is what stands where;
every node records who made it, which the calls do not look at. `place` is the place a path leads to: one
place may have many paths. A call works as the system documents it (`bindUnix` refuses a path where
anything stands, whatever it is) or fails without an effect.

`Places.Keeps places i` is what a process leaves to `i`: all that stands at the places and is no socket, and
the sockets of `i`, but for their removal and a mode of `0o660`.
-/

namespace Rust

inductive NodeKind where
  | socket | symlink | other
deriving DecidableEq

structure Node (ι : Type) where
  kind : NodeKind
  mode : Nat
  owner : Option ι

abbrev Places (P ι : Type) := P → Option (Node ι)

inductive SocketCall (Addr : Type) where
  /-- `fs::symlink_metadata`, and whether it is a socket -/
  | symlinkMetadata (path : Bytes)
  | removeFile (path : Bytes)
  | bindUnix (path : Bytes)
  | bindTcp (address : Addr)
  | setPermissions (path : Bytes) (mode : Nat)
  | setNonblocking

abbrev SocketCall.Answer {Addr : Type} : SocketCall Addr → Type
  | .symlinkMetadata _ => Except String Bool
  | _ => Except String Unit

abbrev SocketProg (Addr α : Type) := Prog (SocketCall Addr) SocketCall.Answer α

def SocketCall.run {Addr : Type} (c : SocketCall Addr) : SocketProg Addr c.Answer := Prog.perform c

variable {P ι Addr : Type}

/-- A call of the process `i`. -/
inductive SocketCall.Acts [DecidableEq P] (place : Bytes → P) (i : ι) (s : Places P ι) :
    (c : SocketCall Addr) → c.Answer → Places P ι → Prop
  | found {path : Bytes} {n : Node ι} (h : s (place path) = some n) :
      Acts place i s (.symlinkMetadata path) (.ok (decide (n.kind = .socket))) s
  | notFound {path : Bytes} (e : String) : Acts place i s (.symlinkMetadata path) (.error e) s
  | removed {path : Bytes} {n : Node ι} (h : s (place path) = some n) :
      Acts place i s (.removeFile path) (.ok ()) (Function.update s (place path) none)
  | notRemoved {path : Bytes} (e : String) : Acts place i s (.removeFile path) (.error e) s
  /-- the mode may lack bits of the one asked for -/
  | bound {path : Bytes} (masked : Nat) (h : s (place path) = none) (hmask : masked &&& 0o777 = masked) :
      Acts place i s (.bindUnix path) (.ok ()) (Function.update s (place path) (some ⟨.socket, masked, some i⟩))
  | notBound {path : Bytes} (e : String) : Acts place i s (.bindUnix path) (.error e) s
  | boundTcp {address : Addr} (a : Except String Unit) : Acts place i s (.bindTcp address) a s
  | permitted {path : Bytes} {mode : Nat} {n : Node ι} (h : s (place path) = some n) (hlink : n.kind ≠ .symlink) :
      Acts place i s (.setPermissions path mode) (.ok ()) (Function.update s (place path) (some { n with mode }))
  /-- a link may lead anywhere -/
  | permittedLink {path : Bytes} {mode : Nat} {n : Node ι} {s' : Places P ι} (h : s (place path) = some n) (hlink : n.kind = .symlink) :
      Acts place i s (.setPermissions path mode) (.ok ()) s'
  | notPermitted {path : Bytes} {mode : Nat} (e : String) : Acts place i s (.setPermissions path mode) (.error e) s
  | nonblocking (a : Except String Unit) : Acts place i s .setNonblocking a s

namespace Places

/-- Nothing stands there, or a socket. -/
def Clear (p : P) (s : Places P ι) : Prop := ∀ n, s p = some n → n.kind = .socket

/-- At these places, what is no socket stays, and nothing comes to it. -/
def Spares (places : Set P) (s s' : Places P ι) : Prop :=
  ∀ p ∈ places, ∀ n, n.kind ≠ .socket → (s' p = some n ↔ s p = some n)

structure Keeps (places : Set P) (i : ι) (s s' : Places P ι) : Prop where
  spares : Spares places s s'
  mine : ∀ p n', s' p = some n' → n'.owner = some i → ∃ n, s p = some n ∧ n.owner = some i ∧ (n'.mode = n.mode ∨ n'.mode = 0o660)

/-- The mode of a socket of `i` is settled. -/
def Settled (i : ι) (p : P) (s : Places P ι) : Prop := ∀ n, s p = some n → n.owner = some i → n.mode = 0o660

section
variable {places : Set P} {i : ι} {p : P} {s s' : Places P ι}

theorem Clear.spares (h : Clear p s) (hp : p ∈ places) (hs : Spares places s s') : Clear p s' := by
  intro n hn
  by_contra hkind
  exact hkind (h n ((hs p hp n hkind).1 hn))

theorem Settled.keeps (h : Settled i p s) (hs : Keeps places i s s') : Settled i p s' := by
  intro n' hn' hown
  obtain ⟨n, hn, hown', hmode⟩ := hs.mine p n' hn' hown
  rcases hmode with hmode | hmode
  · rw [hmode]
    exact h n hn hown'
  · exact hmode

/-- A place where there is no more than a socket may get another, or lose it. -/
theorem spares_update [DecidableEq P] {o : Option (Node ι)} (h : Clear p s) (ho : ∀ n, o = some n → n.kind = .socket) :
    Spares places s (Function.update s p o) := by
  intro q _ n hn
  by_cases hq : q = p
  · subst hq
    rw [Function.update_self]
    exact ⟨fun hnew => absurd (ho n hnew) hn, fun hold => absurd (h n hold) hn⟩
  · rw [Function.update_of_ne hq]

end

end Places

end Rust
