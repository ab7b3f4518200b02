import DkimLite.Connection

/-!
# No input makes a worker panic

Every operation of the source that can panic is a checked one in the model, and a loop that does not
end counts as a panic. `no_panic` says that no run reaches one: reading a packet, the reaction to
it and the writing of its frames do not panic (`turn_ok`), and every turn of the connection's loop
uses up a call of the socket.
-/

namespace DkimLite
open Rust Text

/-- **No panic.** Whatever the peer sends, in whatever pieces it is read and the replies are taken,
whichever configuration each packet meets and whatever was negotiated, no operation panics; nor
does any of the functions on its own. -/
theorem no_panic {Key : Type} {moments : Nat → Moment Key} (hssl : ∀ k, (moments k).env.ssl.Documented) :
    (∀ socket, handleConnectionUntil moments socket ≠ .panic) ∧
      (∀ packet socket, readPacketInto Socket.reader packet socket ≠ .panic) ∧
      (∀ k conn packet socket, onPacket Socket.writer (moments k) conn packet socket ≠ .panic) ∧
      (∀ (state : MessageState Key) payload, receiveHeader state payload ≠ .panic) ∧
      (∀ (c : BodyCanonicalizer) data, c.update data ≠ .panic) ∧
      (∀ k config headers bodyHash, sign (moments k).env config headers bodyHash ≠ .panic) ∧
      (∀ value, fromDomain value ≠ .panic) ∧ (∀ value, canonicalizeSignatureHeader value ≠ .panic) := by
  refine ⟨fun socket => ?_, fun packet socket => ?_, fun k conn packet socket => ?_, fun state payload => ?_,
    fun c data => ?_, fun k config headers bodyHash => ?_, fun value => ?_, fun value => ?_⟩
  · exact (connection_ok hssl socket).ne_panic
  · exact (readPacketInto_ok Socket.reader_feeds packet (s := socket) trivial).ne_panic
  · exact (onPacket_ok Socket.writer_takes (hssl k) conn packet (s := socket) trivial).ne_panic
  · exact receiveHeader_ne_panic state payload
  · rw [BodyCanonicalizer.update_eq]; exact fun h => by cases h
  · exact (sign_safe (hssl k) config headers bodyHash).ne_panic
  · obtain ⟨o, ho, -⟩ := fromDomain_spec value
    rw [ho]; exact fun h => by cases h
  · rw [canonicalizeSignatureHeader_eq]; exact fun h => by cases h

/-- A From header that ends inside a quoted pair, read three bytes at a time. -/
def exampleHalfQuoted : Socket where
  deadline := 100
  ticks := List.replicate 9 ⟨0, .ok (), .ok 3, 0⟩
  input := [0, 0, 0, 9] ++ ascii "LFrom" ++ [NUL] ++ ascii "\"\\" ++ [NUL]

theorem no_panic_half_quoted :
    handleConnectionUntil (fun _ => ⟨some exampleConfig, exampleEnv⟩) exampleHalfQuoted ≠ .panic :=
  (no_panic fun _ => exampleSsl_documented).1 exampleHalfQuoted

end DkimLite
