import AddonBuilder.Proofs.Json.Walk

/-!
# Reading a text

A text that is made of characters can always be decoded, so the only thing that can be wrong with it
is its grammar, and every error then has a message.
-/

namespace AddonBuilder.Json

/-- Every refusal of a text has a message. -/
theorem message_of_decode {s : Text} {e : ParseError} (h : decode s = .error e) :
    ∃ message, e.message? s = some message := by
  obtain ⟨q, -, ⟨⟨d, hd⟩, -⟩ | ⟨e', he', hfaults⟩⟩ := parseSource_walk {} s
  · rw [decode_eq_error_iff, hd] at h
    cases h
  · obtain rfl := Except.error.inj (he'.symm.trans (decode_eq_error_iff.1 h))
    cases hfaults with
    | string _ hscan =>
      obtain ⟨reason, place, rfl⟩ := (inString_of_scanFrom hscan).exists_wrong rfl
      exact ⟨_, rfl⟩
    | missing | noDocument | extraData => exact ⟨_, rfl⟩

/-- **Reading accepts exactly the grammar.**  A text is read to a value exactly if it spells that
value, and every text that spells none is refused with a message.  Of several members with one key
the last is kept. -/
theorem decode_accepts_grammar (s : Text) : (∀ v, decode s = .ok v ↔ Spells {} Value.reading s v) ∧
    ((∃ e message, decode s = .error e ∧ e.message? s = some message) ↔
      ¬ ∃ v, Spells {} Value.reading s v) ∧
    ∀ (members : List (Text × Value)) (key : Text),
      Assoc.get? (Assoc.ofList members) key = Assoc.get? members.reverse key := by
  refine ⟨fun v => decode_eq_ok_iff, ?_, fun members key => Assoc.get?_ofList members key⟩
  constructor
  · rintro ⟨e, message, herror, -⟩ ⟨v, hv⟩
    rw [decode_eq_ok_iff.2 hv] at herror
    cases herror
  · intro hnone
    cases h : decode s with
    | ok v => exact absurd ⟨v, decode_eq_ok_iff.1 h⟩ hnone
    | error e =>
      obtain ⟨message, hmessage⟩ := message_of_decode h
      exact ⟨e, message, rfl, hmessage⟩

end AddonBuilder.Json
