import Calculator.Node

/-!
# Reading an Outline Back

An outline on paper decides what it is the outline of, as far as it says anything about it: the
nodes, the kind of every token, and its value or that it has none. Texts and positions are no part
of an outline (`Node.bare`).

A line ends at the first line break, since neither a name nor a numeral has one. In front of it
stand blanks, then the letters of a name, and then nothing or one more blank and a numeral, so each
of these can be cut off the text again. The lines are those of a tree in preorder, and the kind of
a node says how many children follow.

* `append_inj_of_forall` — cutting a text where a property of its characters changes;
* `Node.Line.text_append_inj`, `Node.join_text_inj` — the lines of a text;
* `Node.expressionLines_append_inj` — the tree of a list of lines;
* `Node.outlineText_eq_iff` — the nodes with the same outline.
-/

namespace Calculator

/-! ### Texts and lines -/

/-- A text that begins with characters of one class and goes on with one of another class can be
cut in one way only. -/
theorem append_inj_of_forall {p : Char → Bool} {xs xs' ys ys' : List Char}
    (hxs : ∀ c ∈ xs, p c) (hys : ∀ c ∈ ys.head?, p c = false)
    (hxs' : ∀ c ∈ xs', p c) (hys' : ∀ c ∈ ys'.head?, p c = false) (h : xs ++ ys = xs' ++ ys') :
    xs = xs' ∧ ys = ys' := by
  have htake : ∀ {zs ws : List Char}, (∀ c ∈ zs, p c) → (∀ c ∈ ws.head?, p c = false) →
      (zs ++ ws).takeWhile p = zs := by
    intro zs ws hzs hws
    have hnil : ws.takeWhile p = [] := by
      cases ws with
      | nil => rfl
      | cons c cs => rw [List.takeWhile_cons, hws c rfl]; rfl
    rw [List.takeWhile_append_of_pos hzs, hnil, List.append_nil]
  obtain rfl : xs = xs' := by
    rw [← htake hxs hys, h, htake hxs' hys']
  exact ⟨rfl, List.append_cancel_left h⟩

namespace Node

/-- A name consists of letters. -/
theorem Kind.isAlpha_name (k : Kind) : k.name.toList.all Char.isAlpha := by
  cases k with
  | token k =>
      cases k with
      | operator o => cases o <;> decide
      | _ => decide
  | _ => decide

/-- Every kind has a name. -/
theorem Kind.name_ne_empty (k : Kind) : k.name.toList ≠ [] := by
  cases k with
  | token k =>
      cases k with
      | operator o => cases o <;> decide
      | _ => decide
  | _ => decide

/-- A name does not begin with a blank. -/
theorem Kind.head_name_ne_blank (k : Kind) (xs : List Char) :
    ∀ c ∈ (k.name.toList ++ xs).head?, (c == ' ') = false := by
  obtain ⟨d, ds, hcons⟩ := List.exists_cons_of_ne_nil k.name_ne_empty
  have hd : d.isAlpha := List.all_eq_true.mp k.isAlpha_name d (by simp [hcons])
  rw [hcons, List.cons_append, List.head?_cons]
  rintro c ⟨⟩
  rw [beq_eq_false_iff_ne]
  rintro rfl
  exact absurd hd (by decide)

/-- What a line says behind the name. -/
def Line.tail (l : Line) : List Char :=
  (l.value.elim "" fun v => " " ++ Text.Numeral.ofInt32 v).toList

/-- The text of a line, part by part: it is indented by four blanks a level and ends with a line
feed. -/
theorem Line.toList_text (l : Line) :
    l.text.toList =
      List.replicate (4 * l.depth) ' ' ++ (l.kind.name.toList ++ (l.tail ++ ['\n'])) := by
  simp [text, tail]

/-- A numeral has no line break in it. -/
theorem not_mem_ofInt32 (v : Int32) : '\n' ∉ (Text.Numeral.ofInt32 v).toList := by
  have hdigits : '\n' ∉ Nat.toDigits 10 v.toInt.natAbs := fun hmem =>
    absurd (Text.Numeral.isDigit_of_mem_toDigits hmem) (by decide)
  rcases Text.Numeral.toList_ofInt32_cases v with ⟨-, hlist⟩ | ⟨-, hlist⟩ <;> rw [hlist]
  · exact hdigits
  · rw [List.mem_cons, not_or]
    exact ⟨by decide, hdigits⟩

/-- The first line break of a line is the one at its end. -/
theorem Line.ne_lineBreak_of_mem_tail (l : Line) : ∀ c ∈ l.tail, c != '\n' := by
  have hnot : '\n' ∉ l.tail := by
    rw [tail]
    cases l.value with
    | none => simp
    | some v => simpa using not_mem_ofInt32 v
  intro c hc
  rw [bne_iff_ne]
  rintro rfl
  exact hnot hc

/-- Behind the name there is no letter. -/
theorem Line.isAlpha_head_tail (l : Line) (xs : List Char) :
    ∀ c ∈ (l.tail ++ '\n' :: xs).head?, c.isAlpha = false := by
  rw [tail]
  cases l.value with
  | none => simp
  | some v => simp

/-- Values that are written in the same way are the same. -/
theorem Line.value_eq_of_tail_eq {l m : Line} (h : l.tail = m.tail) : l.value = m.value := by
  rw [tail, tail, String.toList_inj] at h
  cases hl : l.value with
  | none =>
      cases hm : m.value with
      | none => rfl
      | some w => simp [hl, hm] at h
  | some v =>
      cases hm : m.value with
      | none => simp [hl, hm] at h
      | some w =>
          have hvalue : v = w := Text.Numeral.ofInt32_injective (by simpa [hl, hm] using h)
          rw [hvalue]

/-- **A line can be read back**, and it is known where it ends. -/
theorem Line.text_append_inj {l m : Line} {xs ys : List Char}
    (h : l.text.toList ++ xs = m.text.toList ++ ys) : l = m ∧ xs = ys := by
  simp only [toList_text, List.append_assoc, List.singleton_append] at h
  obtain ⟨hdepth, h⟩ := append_inj_of_forall (p := (· == ' ')) (by simp)
    (l.kind.head_name_ne_blank _) (by simp) (m.kind.head_name_ne_blank _) h
  obtain ⟨hkind, h⟩ := append_inj_of_forall (List.all_eq_true.mp l.kind.isAlpha_name)
    (l.isAlpha_head_tail xs) (List.all_eq_true.mp m.kind.isAlpha_name) (m.isAlpha_head_tail ys) h
  obtain ⟨htail, h⟩ := append_inj_of_forall (p := (· != '\n')) l.ne_lineBreak_of_mem_tail (by simp)
    m.ne_lineBreak_of_mem_tail (by simp) h
  have hlength := congrArg List.length hdepth
  simp only [List.length_replicate] at hlength
  constructor
  · cases l
    cases m
    have hvalue := value_eq_of_tail_eq htail
    have hname' := Kind.name_injective (String.toList_inj.mp hkind)
    simp only at hlength hvalue hname'
    simp only [Line.mk.injEq]
    exact ⟨by omega, hname', hvalue⟩
  · exact (List.cons.inj h).2

/-- Different lists of lines are different on paper. -/
theorem join_text_inj {ls ms : List Line}
    (h : String.join (ls.map Line.text) = String.join (ms.map Line.text)) : ls = ms := by
  have hne (l : Line) (s : String) : "" ≠ l.text ++ s := by
    intro hempty
    have := congrArg String.toList hempty
    simp [Line.toList_text] at this
  induction ls generalizing ms with
  | nil =>
      cases ms with
      | nil => rfl
      | cons m ms =>
          rw [List.map_cons, String.join_cons] at h
          exact absurd h (hne m _)
  | cons l ls ih =>
      cases ms with
      | nil =>
          rw [List.map_cons, String.join_cons] at h
          exact absurd h.symm (hne l _)
      | cons m ms =>
          rw [List.map_cons, List.map_cons, String.join_cons, String.join_cons,
            ← String.toList_inj, String.toList_append, String.toList_append] at h
          obtain ⟨rfl, hrest⟩ := Line.text_append_inj h
          rw [ih (String.toList_inj.mp hrest)]

end Node

/-! ### Trees -/

/-- A token without its text and its position: what an outline says of it. -/
def Token.bare (t : Token) : Token :=
  { t with position := 0, text := "" }

/-- A node with all its tokens **bare**. -/
def Node.bare : Node → Node
  | token t => token t.bare
  | expression e => expression (e.mapTokens Token.bare)

namespace Node

/-- The line of a token is what is left when it is bare. -/
theorem tokenLine_inj {depth : Nat} {t u : Token} :
    tokenLine depth t = tokenLine depth u ↔ t.bare = u.bare := by
  simp [tokenLine, Token.bare]

/-- The outline of a tree is made of the kinds and the values of its tokens. -/
theorem expressionLines_mapTokens {f : Token → Token} (hkind : ∀ t, (f t).kind = t.kind)
    (hvalue : ∀ t, (f t).value = t.value) (depth : Nat) (e : Expression) :
    expressionLines depth (e.mapTokens f) = expressionLines depth e := by
  have hline (depth : Nat) (t : Token) : tokenLine depth (f t) = tokenLine depth t := by
    rw [tokenLine, hkind, hvalue, tokenLine]
  induction e generalizing depth with
  | number t => rw [Expression.mapTokens, expressionLines, expressionLines, hline]
  | binary left operator right ihleft ihright =>
      rw [Expression.mapTokens, expressionLines, expressionLines, ihleft, ihright, hline]
  | grouped opening inner closing ih =>
      rw [Expression.mapTokens, expressionLines, expressionLines, ih, hline, hline]

/-- The first line of a tree is that of its top. -/
theorem exists_expressionLines_eq_cons (depth : Nat) (e : Expression) :
    ∃ ls, expressionLines depth e = ⟨depth, e.kind, none⟩ :: ls := by
  cases e with
  | number | binary | grouped => exact ⟨_, rfl⟩

/-- **A tree can be read back** from its lines, and it is known where it ends. Induction on the
tree; the first line says of which form the other tree must be. -/
theorem expressionLines_append_inj {depth : Nat} {e f : Expression} {ls ms : List Line}
    (h : expressionLines depth e ++ ls = expressionLines depth f ++ ms) :
    e.mapTokens Token.bare = f.mapTokens Token.bare ∧ ls = ms := by
  induction e generalizing depth f ls ms with
  | number t =>
      cases f with
      | number u =>
          simp only [expressionLines, List.cons_append, List.nil_append, List.cons.injEq,
            tokenLine_inj, true_and] at h
          obtain ⟨ht, hrest⟩ := h
          rw [Expression.mapTokens, Expression.mapTokens, ht]
          exact ⟨rfl, hrest⟩
      | binary | grouped => simp [expressionLines] at h
  | binary left operator right ihleft ihright =>
      cases f with
      | binary left' operator' right' =>
          simp only [expressionLines, List.cons_append, List.append_assoc, List.cons.injEq,
            true_and] at h
          obtain ⟨hleft, h⟩ := ihleft h
          simp only [List.cons.injEq, tokenLine_inj] at h
          obtain ⟨hoperator, h⟩ := h
          obtain ⟨hright, hrest⟩ := ihright h
          rw [Expression.mapTokens, Expression.mapTokens, hleft, hoperator, hright]
          exact ⟨rfl, hrest⟩
      | number | grouped => simp [expressionLines] at h
  | grouped opening inner closing ih =>
      cases f with
      | grouped opening' inner' closing' =>
          simp only [expressionLines, List.cons_append, List.append_assoc, List.cons.injEq,
            tokenLine_inj, true_and] at h
          obtain ⟨hopening, h⟩ := h
          obtain ⟨hinner, h⟩ := ih h
          simp only [List.nil_append, List.cons.injEq, tokenLine_inj] at h
          obtain ⟨hclosing, hrest⟩ := h
          rw [Expression.mapTokens, Expression.mapTokens, hopening, hinner, hclosing]
          exact ⟨rfl, hrest⟩
      | number | binary => simp [expressionLines] at h

/-- A bare node has the same lines. -/
theorem outline_bare (n : Node) : n.bare.outline = n.outline := by
  cases n with
  | token t => rfl
  | expression e =>
      exact expressionLines_mapTokens (f := Token.bare) (fun _ => rfl) (fun _ => rfl) 0 e

/-- Nodes with the same lines are the same when they are bare. -/
theorem bare_eq_of_outline_eq {m n : Node} (h : m.outline = n.outline) : m.bare = n.bare := by
  have hkind (t : Token) (e : Expression) : tokenLine 0 t :: [] ≠ expressionLines 0 e := by
    obtain ⟨ls, heq⟩ := exists_expressionLines_eq_cons 0 e
    rw [heq]
    cases e <;> simp [tokenLine, Expression.kind]
  cases m with
  | token t =>
      cases n with
      | token u =>
          simp only [outline, List.cons.injEq, tokenLine_inj, and_true] at h
          rw [bare, bare, h]
      | expression e => exact absurd h (hkind t e)
  | expression e =>
      cases n with
      | token t => exact absurd h.symm (hkind t e)
      | expression f =>
          have hlines : expressionLines 0 e ++ [] = expressionLines 0 f ++ [] := by
            rw [List.append_nil, List.append_nil]
            exact h
          rw [bare, bare, (expressionLines_append_inj hlines).1]

/-- **Outlines are unambiguous.** Two nodes, of any depth and with any tokens, have the same
outline on paper exactly when they are the same node apart from the texts and the positions of
their tokens: the same tree, and in every place of it a token of the same kind and with the same
value, or without one in both. -/
theorem outlineText_eq_iff (m n : Node) : m.outlineText = n.outlineText ↔ m.bare = n.bare := by
  constructor
  · intro h
    exact bare_eq_of_outline_eq (join_text_inj h)
  · intro h
    rw [outlineText, outlineText, ← outline_bare m, h, outline_bare]

end Node

end Calculator
