import Schemata.Json.Quoted

namespace Schemata.Json.Quoted

/-! String literals are read back: each character is read as the piece that it is written as,
and no piece of a written literal needs another one beside it. -/

theorem characters_code {code : Nat} (single : code < 0xD800) (rest : List Piece) :
    characters (.code code :: rest) = (Char.ofNat code :: ·) <$> characters rest := by
  have apart (bound : Nat) : ¬(0xD800 ≤ code ∧ code ≤ bound) := by omega
  have low : ¬(0xDC00 ≤ code ∧ code ≤ 0xDFFF) := by omega
  cases rest with
  | nil => rw [characters.eq_3, if_neg (apart _)]; rfl
  | cons piece rest =>
      cases piece with
      | char => rw [characters.eq_5, if_neg (apart _)]
      | code => rw [characters.eq_4, if_neg (apart _), if_neg low]

theorem characters_of_spells {piece : Piece} {char : Char} (spells : piece.Spells char)
    (rest : List Piece) : characters (piece :: rest) = (char :: ·) <$> characters rest := by
  cases piece with
  | char value =>
      obtain rfl := spells
      rw [characters]
  | code value =>
      obtain ⟨rfl, control⟩ := spells
      rw [characters_code (by omega), Char.ofNat_toNat]

theorem read_escaped (text rest : List Char) :
    read (text.flatMap escape ++ '"' :: rest) = some (text, rest) := by
  have parts : ∃ found, pieces (text.flatMap escape ++ '"' :: rest) = some (found, rest) ∧
      characters found = some text := by
    induction text with
    | nil => exact ⟨[], by rw [List.flatMap_nil, List.nil_append, pieces], rfl⟩
    | cons char more induction =>
        obtain ⟨found, reads, means⟩ := induction
        obtain ⟨piece, spells, written⟩ := exists_piece_escape char
        refine ⟨piece :: found, ?_, ?_⟩
        · rw [List.flatMap_cons, List.append_assoc, written, reads]
          rfl
        · rw [characters_of_spells spells, means]
          rfl
  obtain ⟨found, reads, means⟩ := parts
  rw [read, reads, Option.bind_eq_bind, Option.bind_some]
  dsimp only
  rw [means]
  rfl

theorem decode_encode (text : List Char) : decode (encode text) = some text := by
  have written : encode text = '"' :: (text.flatMap escape ++ ['"']) := rfl
  rw [written, decode, read_escaped]

end Schemata.Json.Quoted
