import CoreLang.Proofs.Parse.Depth
import CoreLang.Proofs.Parse.Independence
import CoreLang.Proofs.Parse.Panic
import CoreLang.Proofs.Parse.SeveredItems

/-! Programs that break off. The parse ends in panic, and its errors tell how many blocks were open
where the text ends. -/
namespace CoreLang
open Form Grammar

namespace Parse
variable {tokens : List Token} {i : Nat}

theorem exists_unfinished (hmarker : ∀ t ∈ tokens, t.kind ≠ .endMarker)
    (h : (ofTokens tokens).successful = true)
    (hnesting : (ofTokens tokens).root.nesting < Limits.nesting) (i : Nat) :
    ∃ m us stop s, (ParserState.ofTokens (tokens.take i)).tokens = tokens.take i ++ [m] ∧
      m.kind = .endMarker ∧
        Grammar.program.Runs Limits.nesting (.ofTokens (tokens.take i)) us stop s ∧
          Unfinished m (tokens.take i).length []
            (Tree.cutSites none 0 [(ofTokens tokens).root] (tokens.take i).length) stop s := by
  obtain ⟨ts, hparse, hd, hleaves⟩ := exists_declarations hmarker h
  rw [hparse] at hnesting ⊢
  have hshape : (Tree.node .program ts).WellShaped 127 :=
    (Tree.wellShaped_iff.2 (.node hd)).of_nesting_le (Nat.le_of_lt_succ hnesting)
  cases Tree.wellShaped_iff.1 hshape with | node hd =>
  obtain ⟨m, ht, hm⟩ := ParserState.exists_marker_of_unmarked fun t ht =>
    hmarker t (List.mem_of_mem_take (i := i) ht)
  obtain ⟨us, stop, s, hrun, hunfinished⟩ := items_unfinished
    (declaration_severable (nested_severable 127) (some .program))
    ((declaration_complete (nested_complete 128)).mono fun k _ => Kind.mem_all k) rfl (by decide) hd
    (hleaves.trans (List.take_append_drop i tokens).symm) ht hm
  rw [ParserState.ofTokens_index, ParserState.ofTokens_errors, Nat.zero_add] at hunfinished
  exact ⟨m, us, stop, s, ht, hm, hrun, hunfinished.node (by decide) rfl⟩

/-- What is read of declarations without errors are the first ones of them. -/
theorem exists_take {us : List Tree} (hd : Grammar.program.Derives Limits.nesting us)
    (hleaves : Tree.leavesAll us = tokens.take i) :
    ∃ k, Tree.leavesAll ((ofTokens tokens).root.children.take k) = tokens.take i := by
  have hparse := append_of_derives hd (tokens.drop i)
  rw [hleaves, List.take_append_drop] at hparse
  exact ⟨us.length, by rw [hparse, Tree.children, List.take_left, hleaves]⟩

theorem errors_ne_nil_of_boundary {us : List Tree} {s : ParserState} {m : Token}
    (hrun : Grammar.program.Runs Limits.nesting (.ofTokens (tokens.take i)) us none s)
    (ht : (ParserState.ofTokens (tokens.take i)).tokens = tokens.take i ++ [m])
    (hs : s.tokens = [m])
    (hboundary : ∀ k, Tree.leavesAll ((ofTokens tokens).root.children.take k) ≠ tokens.take i) :
    s.errors ≠ [] := by
  intro hnil
  have hclean : s.errors = (ParserState.ofTokens (tokens.take i)).errors := by
    rw [hnil, ParserState.ofTokens_errors]
  have hpass := (hrun.passes_leaves hclean (by simp)).tokens
  rw [ht, hs] at hpass
  obtain ⟨k, hk⟩ := exists_take (hrun.derives (.inl rfl)) (List.append_cancel_right hpass).symm
  exact hboundary k hk

/-- A parser that has reached the end with errors at the end alone is in panic. -/
theorem panic_of_errors {us : List Tree} {s : ParserState}
    (hrun : Grammar.program.Runs Limits.nesting (.ofTokens tokens) us none s)
    (hne : s.errors ≠ []) (hplace : ∀ e ∈ s.errors, tokens.length ≤ e.index) :
    s.panic = true := by
  cases hrun.settled (ParserState.ofTokens_closed tokens) with
  | clean herrors => exact absurd (herrors.trans (ParserState.ofTokens_errors tokens)) hne
  | after e hlast _ hpanic =>
    have hindex := hplace e (List.mem_of_getLast? hlast)
    refine hpanic.2 fun t ht => ?_
    have hlength : (Token.beforeMarker tokens).length ≤ tokens.length :=
      (List.takeWhile_sublist _).length_le
    rw [ParserState.beforeMarker_ofTokens, ParserState.ofTokens_index,
      List.drop_eq_nil_of_le (by omega)] at ht
    cases ht

/-- A program that breaks off within a declaration is in panic at its end and has no tree. If that
is inside a subscript with which an expression begins, then the search for the closing bracket is
the one error. Otherwise all errors are at the end: each block that is open lacks its brace, and
something is missing before that, unless a block is open and the innermost one holds whole items
only. -/
theorem ofTokens_take (hmarker : ∀ t ∈ tokens, t.kind ≠ .endMarker)
    (h : (ofTokens tokens).successful = true)
    (hnesting : (ofTokens tokens).root.nesting < Limits.nesting) (hi : i < tokens.length)
    (hboundary : ∀ k, Tree.leavesAll ((ofTokens tokens).root.children.take k) ≠ tokens.take i) :
    let root := (ofTokens tokens).root
    let p := ofTokens (tokens.take i)
    p.panicked = true ∧ p.tree? = none ∧
      (∀ x ∈ root.sites, x.CutsSubscript i → ∃ t, tokens[x.index]? = some t ∧
        p.errors = [⟨.unclosedSubscript, t, x.index⟩]) ∧
      ((∀ x ∈ root.sites, ¬x.CutsSubscript i) → ∃ m,
        (ParserState.ofTokens (tokens.take i)).tokens = tokens.take i ++ [m] ∧
          m.kind = .endMarker ∧
          let missing := List.replicate (root.openBlocks i).length (.missingBrace m i)
          ((∃ b ∈ (root.openBlocks i).getLast?, b.SoundUpTo i) → p.errors = missing) ∧
            ((¬∃ b ∈ (root.openBlocks i).getLast?, b.SoundUpTo i) →
              ∃ cause, p.errors = ⟨cause, m, i⟩ :: missing)) := by
  intro root p
  subst p root
  obtain ⟨m, us, stop, s, ht, hm, hrun, hunfinished⟩ := exists_unfinished hmarker h hnesting i
  rw [List.length_take_of_le (Nat.le_of_lt hi)] at hunfinished
  rw [ofTokens_of_runs hrun]
  cases stop with
  | some stop =>
    cases hunfinished with | fatal hsevered =>
    obtain ⟨x, hx, t, hsubscript, hhead, rfl, he⟩ := hsevered.exists_subscript
    have hx := (Tree.mem_cutSites.1 hx).1
    refine ⟨rfl, rfl, fun y hy hcuts => ?_, fun hnone => absurd hsubscript (hnone x hx)⟩
    have hleaves : (ofTokens tokens).root.leaves = tokens := by
      obtain ⟨ts, hparse, -, hleaves⟩ := exists_declarations hmarker h
      rw [hparse]
      exact hleaves
    refine ⟨t, ?_, ?_⟩
    · rw [hcuts.index_eq hsubscript hy hx, ← Site.getElem?_index hx hhead, hleaves]
    · simp [he, hcuts.index_eq hsubscript hy hx]
  | none =>
    obtain ⟨hs, -⟩ := hunfinished.place
    obtain ⟨hcut, first, he, hfirst⟩ := hunfinished.exists_first
    rw [← Tree.openBlocks_eq] at he hfirst
    have hne := errors_ne_nil_of_boundary hrun ht hs hboundary
    have hpanic : s.panic = true := by
      refine panic_of_errors hrun hne fun e hmem => ?_
      rw [hunfinished.index_eq_of_mem hmem]
      exact List.length_take_le _ _
    simp only [Option.map_none, Option.toList_none, List.append_nil, Option.isSome_none,
      Bool.false_or, hpanic]
    refine ⟨trivial, by simp [tree?], fun x hx hcuts => ?_, fun _ => ⟨m, ht, hm, ?_, ?_⟩⟩
    · exact absurd hcuts (hcut x (Tree.mem_cutSites.2 ⟨hx, hcuts.2.1⟩))
    · rintro ⟨b, hb, hsound⟩
      simpa [(hfirst b hb).2 hsound] using he
    · intro hunsound
      cases first with
      | some cause => exact ⟨cause, by simpa using he⟩
      | none =>
        cases hblocks : ((ofTokens tokens).root.openBlocks i).getLast? with
        | some b => exact absurd ⟨b, hblocks, (hfirst b hblocks).1 rfl⟩ hunsound
        | none => exact absurd (by simpa [List.getLast?_eq_none_iff.1 hblocks] using he) hne

/-- In `int f() { { ;` two blocks are open, and the inner one holds a whole statement. -/
theorem ofTokens_take_blocks :
    let tokens := [.intKeyword, .identifier, .leftParenthesis, .rightParenthesis, .leftBrace,
      .leftBrace, .semicolon, .rightBrace, .rightBrace].map Kind.token
    (∀ t ∈ tokens, t.kind ≠ .endMarker) ∧ (ofTokens tokens).successful = true ∧
      (ofTokens tokens).root.nesting < Limits.nesting ∧
      (∀ k, Tree.leavesAll ((ofTokens tokens).root.children.take k) ≠ tokens.take 7) ∧
      (ofTokens (tokens.take 7)).tree? = none ∧
      ∃ m, m.kind = .endMarker ∧
        (ofTokens (tokens.take 7)).errors = [.missingBrace m 7, .missingBrace m 7] := by
  intro tokens
  have hmarker : ∀ t ∈ tokens, t.kind ≠ .endMarker := by decide
  have h : (ofTokens tokens).successful = true := by decide +kernel
  have hnesting : (ofTokens tokens).root.nesting < Limits.nesting := by decide +kernel
  have hchildren : (ofTokens tokens).root.children.length = 1 ∧
      Tree.leavesAll (ofTokens tokens).root.children ≠ tokens.take 7 := by decide +kernel
  have hboundary (k : Nat) :
      Tree.leavesAll ((ofTokens tokens).root.children.take k) ≠ tokens.take 7 := by
    cases k with
    | zero => simp [tokens]
    | succ k =>
      rw [List.take_of_length_le (by omega)]
      exact hchildren.2
  obtain ⟨-, htree, -, hplain⟩ := ofTokens_take hmarker h hnesting (by decide) hboundary
  have hexpressions : ∀ x ∈ (ofTokens tokens).root.sites, x.isExpression = false := by
    decide +kernel
  obtain ⟨m, -, hm, hsound, -⟩ := hplain fun x hx hcuts => by
    simpa [hexpressions x hx] using hcuts.1
  have hblocks : ((ofTokens tokens).root.openBlocks 7).length = 2 := by decide +kernel
  have hlast : ((ofTokens tokens).root.openBlocks 7).getLast?.map
      (fun b => (b.index, b.tree.leaves)) =
        some (5, [.leftBrace, .semicolon, .rightBrace].map Kind.token) := by decide +kernel
  obtain ⟨b, hb, hplace⟩ := Option.map_eq_some_iff.1 hlast
  obtain ⟨hindex, hleaves⟩ := Prod.mk.inj hplace
  have hitem : blockItem.Derives 0 [.node .blockItem [.node .statement
      [.leaf "SEMICOLON" Kind.semicolon.token]]] :=
    .node (.no (.node (.no (.no (.no (.no (.no (.no (.yes
      (.token (t := Kind.semicolon.token) (by decide)))))))))))
  have hb' : b.SoundUpTo 7 :=
    ⟨0, _, .item hitem .noItem, by rw [hindex, hleaves]; rfl⟩
  refine ⟨hmarker, h, hnesting, hboundary, htree, m, hm, ?_⟩
  rw [hsound ⟨b, hb, hb'⟩, hblocks]
  rfl

end Parse
end CoreLang
