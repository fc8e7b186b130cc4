import CoreLang.Token.Kind

/-! Keywords. Their letters may stand in either case. -/
namespace CoreLang.Keyword

/-- The spelling of each keyword. -/
def table : List (String × Kind) :=
  [("char", .charKeyword), ("int", .intKeyword), ("float", .floatKeyword), ("bool", .boolKeyword),
   ("if", .ifKeyword), ("else", .elseKeyword), ("for", .forKeyword), ("while", .whileKeyword),
   ("return", .returnKeyword), ("printf", .printfKeyword), ("scanf", .scanfKeyword),
   ("true", .trueKeyword), ("false", .falseKeyword), ("void", .voidKeyword)]

/-- The most bytes that the spelling of a keyword takes. -/
def maxBytes : Nat := 6

/-- The number of bytes that a word takes in UTF-8. -/
def byteLength : List Char → Nat
  | [] => 0
  | c :: rest => c.utf8Size + byteLength rest

/-- The keyword that a word spells. Only ASCII letters have a second case here, as for
`Char.toLower`. A word of too many bytes is not looked up. -/
def ofWord? (word : List Char) : Option Kind :=
  if maxBytes < byteLength word then none
  else table.lookup (String.ofList (word.map Char.toLower))

theorem table_keys_pairwise : table.Pairwise fun a b => a.1 ≠ b.1 := by decide

theorem lookup_table_eq_some_iff {spelling : String} {kind : Kind} :
    table.lookup spelling = some kind ↔ (spelling, kind) ∈ table := by
  constructor
  · intro h
    obtain ⟨before, after, htable, -⟩ := List.lookup_eq_some_iff.1 h
    exact htable ▸ List.mem_append_right before List.mem_cons_self
  · intro h
    obtain ⟨before, after, htable⟩ := List.append_of_mem h
    refine List.lookup_eq_some_iff.2 ⟨before, after, htable, fun entry hentry => ?_⟩
    have hpairwise := table_keys_pairwise
    rw [htable] at hpairwise
    have hne := (List.pairwise_append.1 hpairwise).2.2 entry hentry _ List.mem_cons_self
    simpa using hne.symm

/-- An ASCII letter takes one byte in either case. -/
theorem utf8Size_toLower (c : Char) : c.toLower.utf8Size = c.utf8Size := by
  unfold Char.toLower
  split
  · next h =>
    have hlast : c.val.toNat ≤ 0x5A := UInt32.le_iff_toNat_le.1 h.2
    have hlower : (c.val + ('a'.val - 'A'.val)).toNat = (c.val.toNat + 32) % 2 ^ 32 :=
      UInt32.toNat_add _ _
    have hupperSize : c.val ≤ 0x7F := UInt32.le_iff_toNat_le.2 (by change _ ≤ 0x7F; omega)
    have hlowerSize : c.val + ('a'.val - 'A'.val) ≤ 0x7F :=
      UInt32.le_iff_toNat_le.2 (by change _ ≤ 0x7F; omega)
    exact (if_pos hlowerSize).trans (if_pos hupperSize).symm
  · rfl

theorem byteLength_map_toLower (word : List Char) :
    byteLength (word.map Char.toLower) = byteLength word := by
  induction word with
  | nil => rfl
  | cons c rest ih => rw [List.map_cons, byteLength, byteLength, utf8Size_toLower, ih]

theorem byteLength_le_maxBytes : ∀ entry ∈ table, byteLength entry.1.toList ≤ maxBytes := by
  decide

/-- The limit on the bytes of a word hides no keyword. -/
theorem ofWord?_eq_some_iff {word : List Char} {kind : Kind} :
    ofWord? word = some kind ↔ (String.ofList (word.map Char.toLower), kind) ∈ table := by
  rw [← lookup_table_eq_some_iff, ofWord?]
  split
  · next hlong =>
    refine iff_of_false nofun fun h => ?_
    have hle := byteLength_le_maxBytes _ (lookup_table_eq_some_iff.1 h)
    rw [String.toList_ofList, byteLength_map_toLower] at hle
    omega
  · rfl

end CoreLang.Keyword
