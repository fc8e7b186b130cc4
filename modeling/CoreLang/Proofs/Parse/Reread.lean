import CoreLang.Proofs.Grammar.Alike
import CoreLang.Proofs.Parse.Sentence
import CoreLang.Proofs.Source.RoundTrip

/-! A tree written out as source text is read back. The leaves of a tree are all tokens of its text,
none of them is open, and where they stand makes no difference to the parser. -/
namespace CoreLang

namespace Lexed

theorem beforeMarker_content (source : String) :
    (Token.beforeMarker (ofSource source).tokens).map Token.content =
      (Source.contents source.toList).map fun x => (x.1, String.ofList x.2) := by
  rw [beforeMarker_ofSource, List.map_map, Source.contents, List.map_map]
  exact Source.placeAll_content _ _

theorem sourceLine_eq (source : String) : Token.sourceLine (ofSource source).tokens =
    " ".intercalate ((Token.beforeMarker (ofSource source).tokens).map Token.source) := by
  have hkind := Source.placeAll_kind_ne_endMarker (p := .start) (Source.tile_sound source.toList)
  rw [beforeMarker_ofSource, Token.sourceLine]
  congr 2
  simpa [ofSource, ofChars, Token.endMarker] using hkind

/-- A text without faults, written out on one line, has the same contents. -/
theorem beforeMarker_content_of_errors {source : String} (h : (ofSource source).errors = []) :
    (Token.beforeMarker (ofSource (Token.sourceLine (ofSource source).tokens)).tokens).map
        Token.content =
      (Token.beforeMarker (ofSource source).tokens).map Token.content := by
  have hclosed : (Source.tile source.toList).pieces.IsChain fun piece _ => ¬piece.reading.Open := by
    rw [isChain_tokens, h]
    exact (List.pairwise_of_forall fun _ _ ⟨_, hopen⟩ => nomatch hopen).isChain
  rw [beforeMarker_content, beforeMarker_content, toList_sourceLine,
    (Source.contents_line _).2 hclosed]

end Lexed

namespace Parse

/-- The leaves of an accepted text, written out with blanks between them, are accepted too. The
trees differ in positions only, and their outlines are the same. -/
theorem result_ofSource_leaves {source : String} {t : Tree}
    (h : (ofSource source).result = .ok t) :
    ∃ u, (ofSource (" ".intercalate (t.leaves.map Token.source))).result = .ok u ∧
      Tree.Alike (fun v w => v.content = w.content) [t] [u] ∧ u.outline = t.outline := by
  obtain ⟨hclean, hshape, hleaves⟩ := ofSource_result_eq_ok_iff.1 h
  have hcontent := Lexed.beforeMarker_content_of_errors hclean
  rw [Lexed.sourceLine_eq, ← hleaves] at hcontent
  have hrelated := hcontent.symm
  rw [← List.forall₂_eq_eq_eq, List.forall₂_map_left_iff, List.forall₂_map_right_iff] at hrelated
  obtain ⟨u, halike, huleaves⟩ := Tree.Alike.exists_tree_of_leaves hrelated
  have hkind (v w : Token) (hvw : v.content = w.content) : v.kind = w.kind := congrArg Prod.fst hvw
  refine ⟨u, result_eq_ok_iff.2 ⟨halike.wellShaped hkind hshape, huleaves⟩, halike, ?_⟩
  have houtline := halike.outlineAt (fun _ _ hvw => hvw) 0
  simpa [Tree.outline] using houtline.symm

/-- A declaration with its blanks and line breaks in other places. -/
theorem result_ofSource_leaves_int :
    ∃ t u, (ofSource "int\n x='\\n';").result = .ok t ∧
      (ofSource "int x = '\\n' ;").result = .ok u ∧
      Tree.Alike (fun v w => v.content = w.content) [t] [u] ∧ u.outline = t.outline := by
  obtain ⟨t, ht, hleaves⟩ : ∃ t, (ofSource "int\n x='\\n';").result = .ok t ∧
      " ".intercalate (t.leaves.map Token.source) = "int x = '\\n' ;" := by
    refine ⟨(ofSource "int\n x='\\n';").root, ?_, ?_⟩
    · decide +kernel
    · decide +kernel
  obtain ⟨u, hu, h⟩ := result_ofSource_leaves ht
  rw [hleaves] at hu
  exact ⟨t, u, ht, hu, h⟩

end Parse
end CoreLang
