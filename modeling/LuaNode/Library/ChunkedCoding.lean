import LuaNode.Library.Text
import Mathlib.Tactic.IntervalCases

/-!
# The chunked transfer coding

A chunk is its length in hexadecimal, CRLF, the data and CRLF; the body ends with a chunk of
length zero, behind which the trailer section follows. `decodeChunks` is the recipient's
side: it reads chunks until the zero-size one and returns them with the rest of the input.
`decodeChunks_encode` is the round trip for any list of non-empty chunks.
-/

namespace LuaNode

/-- One chunk on the wire. -/
def encodeChunk (data : Str) : Str := hex data.length ++ crlf ++ data ++ crlf

/-- Reads a chunk-size line; `seen` tells that a digit was read. -/
def readSize : ℕ → Bool → Str → Option (ℕ × Str)
  | acc, seen, '\r' :: '\n' :: rest => if seen then some (acc, rest) else none
  | acc, _, c :: rest =>
    match hexValue c with
    | some d => readSize (acc * 16 + d) true rest
    | none => none
  | _, _, [] => none

/-- Reads at most `fuel` chunks: the chunks, and the input behind the zero-size one. -/
def readChunks : ℕ → Str → Option (List Str × Str)
  | 0, _ => none
  | fuel + 1, s =>
    match readSize 0 false s with
    | none => none
    | some (0, rest) => some ([], rest)
    | some (n + 1, rest) =>
      if (rest.drop (n + 1)).take 2 = crlf then
        (readChunks fuel (rest.drop (n + 3))).map fun r => (rest.take (n + 1) :: r.1, r.2)
      else none

/-- The reference decoder; a chunk takes more than one character, so the fuel suffices. -/
def decodeChunks (s : Str) : Option (List Str × Str) := readChunks (s.length + 1) s

theorem readSize_digit {d : ℕ} (hd : d < 16) (acc : ℕ) (seen : Bool) (rest : Str) :
    readSize acc seen (d.digitChar :: rest) = readSize (acc * 16 + d) true rest := by
  interval_cases d <;> rfl

theorem readSize_hex (n : ℕ) (seen : Bool) (rest : Str) :
    readSize 0 seen (hex n ++ rest) = readSize n true rest := by
  induction n using Nat.strong_induction_on generalizing rest with
  | _ n ih =>
    rw [hex_eq]
    split_ifs with h
    · simpa using readSize_digit h 0 seen rest
    · have hmod : n % 16 < 16 := Nat.mod_lt _ (by omega)
      rw [List.append_assoc, ih (n / 16) (by omega), List.singleton_append,
        readSize_digit hmod]
      congr 1
      omega

theorem readSize_hex_crlf (n : ℕ) (rest : Str) :
    readSize 0 false (hex n ++ crlf ++ rest) = some (n, rest) := by
  rw [List.append_assoc, readSize_hex]
  rfl

theorem readChunks_encode (chunks : List Str) (hne : ∀ c ∈ chunks, c ≠ []) (rest : Str)
    (fuel : ℕ) (hfuel : chunks.length < fuel) :
    readChunks fuel (chunks.flatMap encodeChunk ++ (hex 0 ++ crlf ++ rest)) =
      some (chunks, rest) := by
  induction chunks generalizing fuel with
  | nil =>
    obtain ⟨fuel, rfl⟩ : ∃ k, fuel = k + 1 := ⟨fuel - 1, by simp at hfuel; omega⟩
    rw [List.flatMap_nil, List.nil_append, readChunks, readSize_hex_crlf]
  | cons c cs ih =>
    obtain ⟨fuel, rfl⟩ : ∃ k, fuel = k + 1 := ⟨fuel - 1, by simp at hfuel; omega⟩
    obtain ⟨n, hn⟩ : ∃ n, c.length = n + 1 :=
      ⟨c.length - 1, by have := List.length_pos_of_ne_nil (hne c (by simp)); omega⟩
    have htail := ih (fun d hd => hne d (by simp [hd])) fuel (by simpa using hfuel)
    set tail := cs.flatMap encodeChunk ++ (hex 0 ++ crlf ++ rest) with htaildef
    have hsplit : (c :: cs).flatMap encodeChunk ++ (hex 0 ++ crlf ++ rest) =
        hex (n + 1) ++ crlf ++ (c ++ (crlf ++ tail)) := by
      simp [encodeChunk, hn, htaildef]
    have hdata : (c ++ (crlf ++ tail)).take (n + 1) = c := by
      rw [← hn]; exact List.take_left
    have hrest : (c ++ (crlf ++ tail)).drop (n + 1) = crlf ++ tail := by
      rw [← hn]; exact List.drop_left
    have hnext : (c ++ (crlf ++ tail)).drop (n + 3) = tail := by
      rw [show n + 3 = (n + 1) + 2 from rfl, ← List.drop_drop, hrest]
      rfl
    rw [hsplit, readChunks, readSize_hex_crlf]
    simp only [hrest, hnext, hdata, htail]
    simp [crlf]

/-- The round trip: non-empty chunks read back as they were written, and what follows the
zero-size chunk is left over. -/
theorem decodeChunks_encode (chunks : List Str) (hne : ∀ c ∈ chunks, c ≠ []) (rest : Str) :
    decodeChunks (chunks.flatMap encodeChunk ++ (hex 0 ++ crlf ++ rest)) =
      some (chunks, rest) := by
  have hlen : chunks.length ≤ (chunks.flatMap encodeChunk).length := by
    clear hne
    induction chunks with
    | nil => simp
    | cons c cs ih => simp [encodeChunk, crlf]; omega
  exact readChunks_encode chunks hne rest _ (by rw [List.length_append]; omega)

end LuaNode
