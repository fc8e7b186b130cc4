import CoreLang.Proofs.Grammar.Alike
import CoreLang.Proofs.Grammar.Strings
import CoreLang.Proofs.Parse.Sentence
import CoreLang.Proofs.Source.Kinds

/-! Outlines can be read back. The first word of a line tells what stands on it, and a string ends
before the last comma of its line, since the grammar puts something after every string. -/
namespace CoreLang

/-- A token whose line in an outline can be read back. -/
structure Token.Legible (t : Token) : Prop where
  line : '\n' ∉ t.lexeme.toList
  keyword : t.kind.isKeyword = true →
    (String.ofList (t.lexeme.toList.map Char.toLower), t.kind) ∈ Keyword.table

namespace Tree

def isNameChar (c : Char) : Bool := c.isAlpha || c = '_'

theorem isNameChar_kind (kind : Kind) : ∀ c ∈ kind.name.toList, isNameChar c = true := by
  have hname : kind.name.toList.all isNameChar = true := by cases kind <;> decide +kernel
  exact List.all_eq_true.1 hname

theorem isNameChar_production (p : Production) : ∀ c ∈ p.name.toList, isNameChar c = true := by
  have hname : p.name.toList.all isNameChar = true := by cases p <;> decide +kernel
  exact List.all_eq_true.1 hname

theorem isNameChar_of_toLower {c : Char} (h : isNameChar c.toLower = true) : isNameChar c = true := by
  unfold Char.toLower at h
  split at h
  · next hupper =>
    have hupper : c.isUpper = true := decide_eq_true hupper
    have halpha : c.isAlpha = true := Bool.or_eq_true_iff.2 (.inl hupper)
    simp [isNameChar, halpha]
  · exact h

def leafWord (t : Token) : List Char :=
  if t.kind.isKeyword then t.lexeme.toList else t.kind.name.toList

def leafRest (t : Token) : List Char :=
  if t.kind.isKeyword then []
  else if t.kind = .string then ':' :: ' ' :: t.lexeme.toList
  else ':' :: ' ' :: '"' :: (t.lexeme.toList ++ ['"'])

theorem isKeyword_of_leafLabel (kind : Kind) (h : leafLabel kind ∈ typeLabels) :
    kind.isKeyword = true := by
  cases kind <;> first | rfl | exact absurd h (by decide)

theorem toList_leafText (t : Token) :
    (leafText (leafLabel t.kind) t).toList = leafWord t ++ leafRest t := by
  unfold leafText leafWord leafRest
  by_cases hstring : t.kind = .string
  · have hkeyword : Kind.string.isKeyword = false := rfl
    simp [hstring, hkeyword]
  · by_cases hkeyword : t.kind.isKeyword = true
    · simp [hstring, hkeyword]
    · have hlabel := mt (isKeyword_of_leafLabel t.kind) hkeyword
      simp [hstring, hkeyword, hlabel]

/-- What comes behind the text of a leaf: a comma, if another tree follows, and the end of the line. -/
def EndsLine (text : List Char) : Prop :=
  ∃ comma rest, text = comma ++ rest ∧ (comma = [] ∨ comma = [',']) ∧ ∀ c ∈ rest.head?, c = '\n'

theorem EndsLine.head {text : List Char} (h : EndsLine text) :
    ∀ c ∈ text.head?, c ≠ ':' ∧ c ≠ '(' ∧ isNameChar c = false := by
  obtain ⟨comma, rest, rfl, rfl | rfl, hrest⟩ := h
  · intro c hc
    rw [hrest c hc]
    decide
  · intro c hc
    obtain rfl : ',' = c := by simpa using hc
    decide

section Lines
variable {a b r s : List Char}

theorem line_inj (ha : '\n' ∉ a) (hb : '\n' ∉ b) (hr : ∀ c ∈ r.head?, c = '\n')
    (hs : ∀ c ∈ s.head?, c = '\n') (h : a ++ r = b ++ s) : a = b ∧ r = s := by
  have hin : ∀ text : List Char, '\n' ∉ text → ∀ c ∈ text, (c != '\n') = true :=
    fun text htext c hc => bne_iff_ne.2 fun hline => htext (hline ▸ hc)
  exact Source.append_inj_of_head (p := (· != '\n')) (hin a ha) (hin b hb)
    (fun c hc => by simp [hr c hc]) (fun c hc => by simp [hs c hc]) h

theorem quoted_inj (ha : '\n' ∉ a) (hb : '\n' ∉ b) (hr : EndsLine r) (hs : EndsLine s)
    (h : a ++ '"' :: r = b ++ '"' :: s) : a = b ∧ r = s := by
  obtain ⟨comma, rest, rfl, hcomma, hrest⟩ := hr
  obtain ⟨comma', rest', rfl, hcomma', hrest'⟩ := hs
  have hline : (a ++ '"' :: comma) ++ rest = (b ++ '"' :: comma') ++ rest' := by simpa using h
  obtain ⟨hquoted, rfl⟩ := line_inj (by rcases hcomma with rfl | rfl <;> simp [ha])
    (by rcases hcomma' with rfl | rfl <;> simp [hb]) hrest hrest' hline
  rcases hcomma with rfl | rfl <;> rcases hcomma' with rfl | rfl
  · exact ⟨(List.append_inj' hquoted rfl).1, rfl⟩
  · rw [List.append_cons b '"' [',']] at hquoted
    exact absurd (List.append_inj' hquoted rfl).2 (by decide)
  · rw [List.append_cons a '"' [',']] at hquoted
    exact absurd (List.append_inj' hquoted rfl).2 (by decide)
  · exact ⟨(List.append_inj' hquoted rfl).1, rfl⟩

theorem unquoted_inj (ha : '\n' ∉ a) (hb : '\n' ∉ b)
    (h : a ++ ',' :: '\n' :: r = b ++ ',' :: '\n' :: s) : a = b ∧ r = s := by
  have hline : (a ++ [',']) ++ '\n' :: r = (b ++ [',']) ++ '\n' :: s := by simpa using h
  obtain ⟨htext, hrest⟩ := line_inj (by simp [ha]) (by simp [hb]) (by simp) (by simp) hline
  exact ⟨(List.append_inj' htext rfl).1, (List.cons.inj hrest).2⟩

end Lines

section Leaves
variable {t u : Token} {r s : List Char}

theorem isNameChar_leafWord (h : t.Legible) : ∀ c ∈ leafWord t, isNameChar c = true := by
  have htable : ∀ entry ∈ Keyword.table, entry.1.toList.all isNameChar = true := by
    decide +kernel
  unfold leafWord
  split
  · next hkeyword =>
    have hlower := htable _ (h.keyword hkeyword)
    rw [String.toList_ofList, List.all_eq_true] at hlower
    exact fun c hc => isNameChar_of_toLower (hlower _ (List.mem_map_of_mem hc))
  · exact isNameChar_kind t.kind

theorem head_leafRest (t : Token) (hr : EndsLine r) :
    ∀ c ∈ (leafRest t ++ r).head?, c ≠ '(' ∧ isNameChar c = false := by
  unfold leafRest
  split
  · exact fun c hc => (hr.head c hc).2
  · intro c hc
    obtain rfl : ':' = c := by split at hc <;> simpa using hc
    decide

theorem isKeyword_of_leafRest (hr : EndsLine r) (ht : t.kind.isKeyword = true)
    (h : leafRest t ++ r = leafRest u ++ s) : u.kind.isKeyword = true := by
  by_contra hu
  have hcolon : ':' ∈ (leafRest u ++ s).head? := by
    unfold leafRest
    rw [if_neg hu]
    split <;> rfl
  rw [← h, leafRest, if_pos ht, List.nil_append] at hcolon
  exact (hr.head ':' hcolon).1 rfl

theorem leaf_inj (ht : t.Legible) (hu : u.Legible) (hr : EndsLine r) (hs : EndsLine s)
    (htstring : t.kind = .string → ∃ rest, r = ',' :: '\n' :: rest)
    (hustring : u.kind = .string → ∃ rest, s = ',' :: '\n' :: rest)
    (h : leafWord t ++ (leafRest t ++ r) = leafWord u ++ (leafRest u ++ s)) :
    t.content = u.content ∧ r = s := by
  obtain ⟨hword, hrest⟩ := Source.append_inj_of_head (isNameChar_leafWord ht)
    (isNameChar_leafWord hu) (fun c hc => (head_leafRest t hr c hc).2)
    (fun c hc => (head_leafRest u hs c hc).2) h
  by_cases hkeyword : t.kind.isKeyword = true
  · have hkeyword' := isKeyword_of_leafRest hr hkeyword hrest
    have hentry := Keyword.lookup_table_eq_some_iff.2 (ht.keyword hkeyword)
    have hentry' := Keyword.lookup_table_eq_some_iff.2 (hu.keyword hkeyword')
    rw [leafWord, leafWord, if_pos hkeyword, if_pos hkeyword'] at hword
    rw [leafRest, leafRest, if_pos hkeyword, if_pos hkeyword'] at hrest
    rw [hword, hentry'] at hentry
    exact ⟨Prod.ext (Option.some.inj hentry).symm (String.toList_injective hword), hrest⟩
  · have hkeyword' : ¬u.kind.isKeyword = true :=
      fun hkeyword' => hkeyword (isKeyword_of_leafRest hs hkeyword' hrest.symm)
    rw [leafWord, leafWord, if_neg hkeyword, if_neg hkeyword'] at hword
    rw [leafRest, leafRest, if_neg hkeyword, if_neg hkeyword'] at hrest
    have hkind : t.kind = u.kind := by
      have hname := congrArg Kind.ofName? (String.toList_injective hword)
      rw [Kind.ofName?_name, Kind.ofName?_name] at hname
      exact Option.some.inj hname
    have htext : t.lexeme.toList = u.lexeme.toList ∧ r = s := by
      by_cases hstring : t.kind = .string
      · obtain ⟨rest, rfl⟩ := htstring hstring
        obtain ⟨rest', rfl⟩ := hustring (hkind ▸ hstring)
        rw [if_pos hstring, if_pos (hkind ▸ hstring)] at hrest
        obtain ⟨hlexeme, rfl⟩ := unquoted_inj ht.line hu.line (by simpa using hrest)
        exact ⟨hlexeme, rfl⟩
      · rw [if_neg hstring, if_neg (hkind ▸ hstring)] at hrest
        exact quoted_inj ht.line hu.line hr hs (by simpa using hrest)
    exact ⟨Prod.ext hkind (String.toList_injective htext.1), htext.2⟩

end Leaves

section Forests
variable {depth : Nat} {r s : List Char} {t : Token} {p q : Production} {ts us children : List Tree}

def childLines (depth : Nat) : List Tree → List Char
  | [] => []
  | first :: rest =>
    '\n' :: ((outlineAt (depth + 1) first).toList ++ (outlineAll (depth + 1) rest).toList ++
      '\n' :: (indent depth).toList)

theorem toList_outlineAll_leaf :
    (outlineAll depth (leaf (leafLabel t.kind) t :: ts)).toList ++ r =
      ",\n".toList ++ ((indent depth).toList ++
        (leafWord t ++ (leafRest t ++ ((outlineAll depth ts).toList ++ r)))) := by
  simp [outlineAll, outlineAt, toList_leafText]

theorem toList_outlineAll_node :
    (outlineAll depth (node p children :: ts)).toList ++ r =
      ",\n".toList ++ ((indent depth).toList ++
        (p.name.toList ++ '(' :: (childLines depth children ++
          ')' :: ((outlineAll depth ts).toList ++ r)))) := by
  cases children <;> simp [outlineAll, outlineAt, childLines]

theorem cons_childLines (h : children ≠ []) :
    ',' :: (childLines depth children ++ r) =
      (outlineAll (depth + 1) children).toList ++ ('\n' :: ((indent depth).toList ++ r)) := by
  cases children with
  | nil => exact absurd rfl h
  | cons first rest => simp [childLines, outlineAll]

theorem eq_nil_of_childLines {children' : List Tree} (hnil : children = [])
    (h : childLines depth children ++ ')' :: r = childLines depth children' ++ ')' :: s) :
    children' = [] := by
  subst hnil
  cases children' with
  | nil => rfl
  | cons first rest => exact absurd (List.cons.inj h).1 (by decide)

theorem endsLine_outlineAll (hr : ∀ c ∈ r.head?, c = '\n') (depth : Nat) (ts : List Tree) :
    EndsLine ((outlineAll depth ts).toList ++ r) := by
  cases ts with
  | nil => exact ⟨[], r, by simp [outlineAll], .inl rfl, hr⟩
  | cons t ts =>
    refine ⟨[','], '\n' :: ((outlineAt depth t).toList ++ (outlineAll depth ts).toList ++ r), ?_,
      .inr rfl, by simp⟩
    simp [outlineAll]

theorem exists_outlineAll (h : ts ≠ []) (depth : Nat) (r : List Char) :
    ∃ rest, (outlineAll depth ts).toList ++ r = ',' :: '\n' :: rest := by
  cases ts with
  | nil => exact absurd rfl h
  | cons t ts => exact ⟨(outlineAt depth t).toList ++ (outlineAll depth ts).toList ++ r,
      by simp [outlineAll]⟩

theorem eq_nil_of_outlineAll (hr : ∀ c ∈ r.head?, c = '\n')
    (h : r = (outlineAll depth ts).toList ++ s) : ts = [] := by
  by_contra hne
  obtain ⟨rest, hrest⟩ := exists_outlineAll hne depth s
  have hcomma := hr ',' (by rw [h, hrest]; rfl)
  exact absurd hcomma (by decide)

theorem production_inj (h : p.name.toList ++ '(' :: r = q.name.toList ++ '(' :: s) :
    p = q ∧ r = s := by
  obtain ⟨hname, hrest⟩ := Source.append_inj_of_head (isNameChar_production p)
    (isNameChar_production q) (by simp; decide) (by simp; decide) h
  have hname := congrArg Production.ofName? (String.toList_injective hname)
  rw [Production.ofName?_name, Production.ofName?_name] at hname
  exact ⟨Option.some.inj hname, (List.cons.inj hrest).2⟩

theorem leaf_ne_node (ht : t.Legible) (hr : EndsLine r) :
    leafWord t ++ (leafRest t ++ r) ≠ p.name.toList ++ '(' :: s := by
  intro h
  obtain ⟨-, hrest⟩ := Source.append_inj_of_head (isNameChar_leafWord ht)
    (isNameChar_production p) (fun c hc => (head_leafRest t hr c hc).2) (by simp; decide) h
  exact (head_leafRest t hr '(' (by rw [hrest]; rfl)).1 rfl

/-- Trees side by side can be read back from their lines, together with what comes after them. -/
theorem outlineAll_inj (h : StringsInside ts) (h' : StringsInside us)
    (hts : ∀ t ∈ leavesAll ts, t.Legible) (hus : ∀ t ∈ leavesAll us, t.Legible)
    (hr : ∀ c ∈ r.head?, c = '\n') (hs : ∀ c ∈ s.head?, c = '\n')
    (heq : (outlineAll depth ts).toList ++ r = (outlineAll depth us).toList ++ s) :
    Alike (fun t u => t.content = u.content) ts us ∧ r = s := by
  induction h generalizing us depth r s with
  | nil =>
    obtain rfl := eq_nil_of_outlineAll hr heq
    exact ⟨.nil, heq⟩
  | @leaf t ts hstring hinside ih =>
    obtain ⟨ht, hts⟩ := List.forall_mem_cons.1 hts
    have hends := endsLine_outlineAll hr depth ts
    rw [toList_outlineAll_leaf] at heq
    cases h' with
    | nil => cases eq_nil_of_outlineAll hs (toList_outlineAll_leaf.trans heq).symm
    | @leaf u us hstring' hinside' =>
      obtain ⟨hu, hus⟩ := List.forall_mem_cons.1 hus
      have hends' := endsLine_outlineAll hs depth us
      rw [toList_outlineAll_leaf, List.append_cancel_left_eq, List.append_cancel_left_eq] at heq
      obtain ⟨hcontent, hrest⟩ := leaf_inj ht hu hends hends'
        (fun hkind => exists_outlineAll (hstring hkind) depth r)
        (fun hkind => exists_outlineAll (hstring' hkind) depth s) heq
      obtain ⟨halike, rfl⟩ := ih hinside' hts hus hr hs hrest
      rw [show t.kind = u.kind from congrArg Prod.fst hcontent]
      exact ⟨.leaf hcontent halike, rfl⟩
    | node =>
      rw [toList_outlineAll_node, List.append_cancel_left_eq, List.append_cancel_left_eq] at heq
      exact absurd heq (leaf_ne_node ht hends)
  | @node p children ts _ _ ih ih' =>
    obtain ⟨hchildren, hts⟩ := List.forall_mem_append.1 hts
    rw [toList_outlineAll_node] at heq
    cases h' with
    | nil => cases eq_nil_of_outlineAll hs (toList_outlineAll_node.trans heq).symm
    | leaf =>
      obtain ⟨hu, -⟩ := List.forall_mem_cons.1 hus
      rw [toList_outlineAll_leaf, List.append_cancel_left_eq, List.append_cancel_left_eq] at heq
      exact absurd heq.symm (leaf_ne_node hu (endsLine_outlineAll hs depth _))
    | @node q children' us hinside hinside' =>
      obtain ⟨hchildren', hus'⟩ := List.forall_mem_append.1 hus
      rw [toList_outlineAll_node, List.append_cancel_left_eq, List.append_cancel_left_eq] at heq
      obtain ⟨rfl, hrest⟩ := production_inj heq
      have hbelow : Alike (fun t u => t.content = u.content) children children' ∧
          (outlineAll depth ts).toList ++ r = (outlineAll depth us).toList ++ s := by
        by_cases hnil : children = []
        · obtain rfl := eq_nil_of_childLines hnil hrest
          subst hnil
          exact ⟨.nil, (List.cons.inj hrest).2⟩
        · have hnil' := mt (eq_nil_of_childLines · hrest.symm) hnil
          have hlines := congrArg (List.cons ',') hrest
          rw [cons_childLines hnil, cons_childLines hnil'] at hlines
          obtain ⟨halike, hclose⟩ := ih hinside hchildren hchildren' (by simp) (by simp) hlines
          exact ⟨halike, by simpa using hclose⟩
      obtain ⟨halike, rfl⟩ := ih' hinside' hts hus' hr hs hbelow.2
      exact ⟨.node hbelow.1 halike, rfl⟩

end Forests

end Tree

namespace Parse

theorem legible_of_reads {source : String} {t : Tree} (h : t.Reads source)
    (hline : ∀ v ∈ (Lexed.ofSource source).tokens, '\n' ∉ v.lexeme.toList) :
    ∀ v ∈ t.leaves, v.Legible := by
  have hshapes := Source.placeAll_shapes source.toList .start
  intro v hv
  rw [h.2.2] at hv
  refine ⟨hline v ((List.takeWhile_sublist _).mem hv), ?_⟩
  rw [Lexed.beforeMarker_ofSource] at hv
  obtain ⟨raw, rest, hshaped⟩ := hshapes.exists_shaped v hv
  exact hshaped.keyword_mem

/-- The outline of a text determines its tree up to the positions of tokens, if no token goes over
the end of a line. -/
theorem outline_injective {a b : String} {t u : Tree} (ha : (ofSource a).result = .ok t)
    (hb : (ofSource b).result = .ok u)
    (hlines : ∀ v ∈ (Lexed.ofSource a).tokens, '\n' ∉ v.lexeme.toList)
    (hlines' : ∀ v ∈ (Lexed.ofSource b).tokens, '\n' ∉ v.lexeme.toList)
    (h : t.outline = u.outline) :
    Tree.Alike (fun v w => v.content = w.content) [t] [u] := by
  have ha := ofSource_result_eq_ok_iff.1 ha
  have hb := ofSource_result_eq_ok_iff.1 hb
  have hleaves := legible_of_reads ha hlines
  have hleaves' := legible_of_reads hb hlines'
  have heq : (Tree.outlineAll 0 [t]).toList ++ [] = (Tree.outlineAll 0 [u]).toList ++ [] := by
    simp only [Tree.outlineAll, show t.outlineAt 0 = u.outlineAt 0 from h]
  exact (Tree.outlineAll_inj ha.2.1.stringsInside hb.2.1.stringsInside
    (by simpa [Tree.leavesAll] using hleaves) (by simpa [Tree.leavesAll] using hleaves')
    (by simp) (by simp) heq).1

/-- Two layouts of a program whose string looks like the end of a node. -/
theorem outline_injective_layout :
    ∃ t u, (ofSource "int f()\x7bprintf(\"),\");\x7d").result = .ok t ∧
      (ofSource "int f()\n\x7b printf( \"),\" ); \x7d").result = .ok u ∧ t.outline = u.outline ∧
      Tree.Alike (fun v w => v.content = w.content) [t] [u] := by
  have ht : (ofSource "int f()\x7bprintf(\"),\");\x7d").result =
      .ok (ofSource "int f()\x7bprintf(\"),\");\x7d").root := by decide +kernel
  have hu : (ofSource "int f()\n\x7b printf( \"),\" ); \x7d").result =
      .ok (ofSource "int f()\n\x7b printf( \"),\" ); \x7d").root := by decide +kernel
  have hlines : ∀ v ∈ (Lexed.ofSource "int f()\x7bprintf(\"),\");\x7d").tokens,
      '\n' ∉ v.lexeme.toList := by decide +kernel
  have hlines' : ∀ v ∈ (Lexed.ofSource "int f()\n\x7b printf( \"),\" ); \x7d").tokens,
      '\n' ∉ v.lexeme.toList := by decide +kernel
  have houtline : (ofSource "int f()\x7bprintf(\"),\");\x7d").root.outline =
      (ofSource "int f()\n\x7b printf( \"),\" ); \x7d").root.outline := by decide +kernel
  exact ⟨_, _, ht, hu, houtline, outline_injective ht hu hlines hlines' houtline⟩

end Parse
end CoreLang
