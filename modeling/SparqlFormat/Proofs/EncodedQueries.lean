import SparqlFormat.Proofs.FirstFailure

/-!
# Every form encoding of a query is decoded

However a query is encoded, decoding gives the query back, and that is what the formatter is
asked for (`decode_of_encodes`).
-/

namespace SparqlFormat.FormEncoding

/-- Every encoding of a text decodes to the text, in one pass and in three, and if form encoding is
undone, the formatter is given the text, wherever the encoding was read. -/
theorem decode_of_encodes {s e : List Char} (h : Encodes s e) :
    decode (.ofText e) = .ok s ∧ decodeInPasses (.ofText e) = .ok s ∧
      (∀ (f : Formatter Id) (mode : Mode),
        (runBytes f.traced ⟨mode, true⟩ (Utf8.encode e)).record.2 = [.reformat mode s]) ∧
      ∀ (a : Access Id) (f : Formatter Id) (mode : Mode) (argument : Argument) (source : Source),
        a.Delivers argument source e →
          (run a.traced f.traced ⟨mode, true⟩ argument).record.2 =
            lookups a argument ++ [.reformat mode s] := by
  have decoded : decode (.ofText e) = .ok s := by
    simp only [decode, wellEscaped_of_encodes h 0, Argument.text?_ofText, bytes_encodes h,
      Utf8.decode_encode]
  have undone : decodeForm true e = .ok s := by
    simp [decodeForm, decoded, Except.mapError]
  refine ⟨decoded, ?_, ?_, ?_⟩
  · rw [← decode_eq_decodeInPasses]
    exact decoded
  · intro f mode
    exact record_runBytes_of_decoded (Utf8.decode_encode e) undone
  · intro a f mode argument source delivered
    have submitted : a.Submits ⟨mode, true⟩ argument source s :=
      ⟨e, delivered, decodes_iff.2 undone⟩
    exact (record_eq_iff.1 rfl).requests_of_submits submitted

/-- A plus sign, a character outside ASCII as itself and another in escapes of both cases, and the
two characters that only escapes can stand for. -/
theorem decode_of_encodes_mixed :
    Encodes [' ', 'é', '€', '+', '%'] "+é%e2%82%AC%2b%25".toList ∧
      decode (.ofText "+é%e2%82%AC%2b%25".toList) = .ok [' ', 'é', '€', '+', '%'] := by
  have euro : Escapes (Utf8.encodeChar '€') "%e2%82%AC".toList :=
    .cons (.inl rfl) (.inl rfl) (.cons (.inl rfl) (.inl rfl) (.cons (.inr rfl) (.inr rfl) .nil))
  have plus : Escapes (Utf8.encodeChar '+') "%2b".toList := .cons (.inl rfl) (.inl rfl) .nil
  have percent : Escapes (Utf8.encodeChar '%') "%25".toList := .cons (.inl rfl) (.inl rfl) .nil
  have encoded : Encodes [' ', 'é', '€', '+', '%'] "+é%e2%82%AC%2b%25".toList := by
    refine .cons .plus (.cons (.itself (by decide) (by decide)) ?_)
    exact .cons (.escapes euro) (.cons (.escapes plus) (.cons (.escapes percent) .nil))
  exact ⟨encoded, (decode_of_encodes encoded).1⟩

end SparqlFormat.FormEncoding
