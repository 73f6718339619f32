import Mathlib.Logic.Relation
import Calculator.Proofs.Order

/-!
# Calls within a Call

A run of the parser is a tree of calls. `Parser.Returns` says what a call comes to an end with; here
it is said which calls are made on the way, so that a state can be spoken of that the parser passes
through.

What a call knows about its surroundings is one number, that of the groups that are open. The calls
that are made on the way keep it within the limit, and it is the number that can be read off the
text: among the tokens that were taken before, there are so many more opening parentheses than
closing ones. Where a closing parenthesis was missing this would be wrong, but behind such a place
nothing is taken any more.

What else a call may rely on is that the tokens in front of it stand in line, and that a left
operand is what is read from such tokens (`Parser.Call.IsReady`).

* `Parser.Calls`, `Parser.Reaches` — one call that is made by another, directly and on the way;
* `Parser.nesting_le_of_calls` — the number of open groups is within the limit;
* `Parser.isReady_of_reaches` — what every call may rely on;
* `Derives.leavesOpen` — a tree opens and closes the same number of groups;
* `Parser.standsIn_of_reaches` — the number of open groups is that of the text.
-/

namespace Calculator

namespace Parser

/-- The number of groups that are open during a call. -/
def Call.nesting : Call → Nat
  | chain _ n _ | operand _ n _ | extend _ n _ | primary n _ => n

/-- The relation `Calls p c d` says that the call `c` makes the call `d`, with what it has read by
then. -/
inductive Calls (p : Parser) : Call → Call → Prop
  /-- A chain first reads an operand. -/
  | first {l : Level} {n : Nat} {r : Remaining} : Calls p (.chain l n r) (.operand l n r)
  /-- Then it goes on from there. -/
  | others {l : Level} {n : Nat} {r : Remaining} {first : Parsed}
      (hfirst : p.Returns (.operand l n r) first) : Calls p (.chain l n r) (.extend l n first)
  /-- An operand of a sum is a chain of products. -/
  | sumOperand {n : Nat} {r : Remaining} :
      Calls p (.operand .sum n r) (.chain .product n r)
  /-- An operand of a product is a primary. -/
  | productOperand {n : Nat} {r : Remaining} :
      Calls p (.operand .product n r) (.primary n r)
  /-- Behind an operator an operand is read. -/
  | right {l : Level} {n : Nat} {left : Parsed} {operator : Token} {ts : List Token}
      (hoperator : left.rest.takeIf l.has = some (operator, ts)) :
      Calls p (.extend l n left) (.operand l n (.tokens ts))
  /-- Then the chain goes on with both operands joined. -/
  | further {l : Level} {n : Nat} {left right : Parsed} {operator : Token} {ts : List Token}
      (hoperator : left.rest.takeIf l.has = some (operator, ts))
      (hright : p.Returns (.operand l n (.tokens ts)) right) :
      Calls p (.extend l n left) (.extend l n (p.join left operator right))
  /-- In a group a chain of sums is read. -/
  | inner {n : Nat} {r : Remaining} {opening : Token} {ts : List Token}
      (hopening : r.takeIf (· == .groupOpen) = some (opening, ts))
      (hlimit : p.exhausted? n = none) :
      Calls p (.primary n r) (.chain .sum (n + 1) (.tokens ts))

/-- The relation `Reaches p c d` says that the call `d` is made on the way from the call `c`, by
any number of calls that make one another. -/
def Reaches (p : Parser) : Call → Call → Prop :=
  Relation.ReflTransGen p.Calls

variable {p : Parser} {m : Nat}

/-- A further group may be opened exactly while fewer than the limit are open. -/
theorem exhausted?_eq_none_iff (hlimit : p.limit = some m) {n : Nat} :
    p.exhausted? n = none ↔ n < m := by
  rw [Option.eq_none_iff_forall_ne_some]
  constructor
  · intro h
    by_contra hle
    exact h m (exhausted?_eq_some_iff.mpr ⟨hlimit, Nat.le_of_not_lt hle⟩)
  · intro hlt limit hsome
    obtain ⟨hlimit', hle⟩ := exhausted?_eq_some_iff.mp hsome
    obtain rfl : m = limit := Option.some.inj (hlimit.symm.trans hlimit')
    omega

/-- One call keeps the number of open groups within the limit. -/
theorem nesting_le_of_calls (hlimit : p.limit = some m) {c d : Call} (h : p.Calls c d)
    (hc : c.nesting ≤ m) : d.nesting ≤ m := by
  cases h with
  | inner _ hexhausted => exact (exhausted?_eq_none_iff hlimit).mp hexhausted
  | _ => exact hc

end Parser

/-! ### Tokens one behind the other -/

/-- The tokens have a text, and each of them and the mark behind them starts behind the one
before. -/
structure Token.InLine (endOfFile : Token) (ts : List Token) : Prop where
  written : AllWritten ts
  apart : (ts ++ [endOfFile]).Pairwise fun t u => t.position < u.position

namespace Token.InLine

variable {endOfFile : Token} {ts us : List Token}

/-- Fewer tokens stand in line as well. -/
theorem sublist (h : InLine endOfFile ts) (hsub : us.Sublist ts) : InLine endOfFile us :=
  ⟨fun t ht => h.written t (hsub.subset ht),
    h.apart.sublist (hsub.append (List.Sublist.refl _))⟩

/-- Behind the first token the others stand in line. -/
theorem of_cons {t : Token} (h : InLine endOfFile (t :: ts)) : InLine endOfFile ts :=
  h.sublist (List.sublist_cons_self t ts)

/-- Tokens in line are in rising order, with the mark behind them. -/
theorem ascending (h : InLine endOfFile ts) : Ascending (ts ++ [endOfFile]) :=
  .of_pairwise_lt h.apart

/-- What comes before some tokens starts in front of them, also if there are none. -/
theorem lt_current (h : InLine endOfFile (us ++ ts)) {t : Token} (ht : t ∈ us) :
    t.position < ((Remaining.tokens ts).current endOfFile).position := by
  have hapart := h.apart
  rw [List.append_assoc, List.pairwise_append] at hapart
  refine hapart.2.2 t ht _ ?_
  cases ts <;> simp

/-- The first token starts in front of what follows it. -/
theorem head_lt_current {t : Token} (h : InLine endOfFile (t :: ts)) :
    t.position < ((Remaining.tokens ts).current endOfFile).position :=
  lt_current (List.singleton_append ▸ h) (List.mem_singleton_self t)

end Token.InLine

/-! ### Left operands -/

/-- A left operand was **begun** on some tokens: what every result of a call at the front of them
is like, given up or not. -/
structure Parsed.IsBegun (p : Parser) (l : Level) (ts : List Token) (e : Parsed) : Prop where
  fits : e.Fits p (.chain l)
  keeps : e.Keeps ts
  ascends : e.Ascends p.endOfFile []

namespace Parsed.IsBegun

variable {p : Parser} {l : Level} {ts us : List Token} {e : Parsed} {operator : Token}

/-- An operator and what follows it stand in line. -/
theorem inLine_rest (h : e.IsBegun p l ts) (hline : Token.InLine p.endOfFile ts)
    (hoperator : e.rest.takeIf l.has = some (operator, us)) :
    Token.InLine p.endOfFile (operator :: us) := by
  obtain ⟨hrest, -⟩ := Remaining.takeIf_eq_some_iff.mp hoperator
  rw [← hrest]
  exact hline.sublist ((List.sublist_append_right _ _).trans h.keeps.consumed.sublist)

/-- What follows an operator starts behind its left operand. -/
theorem position_lt_current (h : e.IsBegun p l ts) (hline : Token.InLine p.endOfFile ts)
    (hoperator : e.rest.takeIf l.has = some (operator, us)) :
    e.expression.position < ((Remaining.tokens us).current p.endOfFile).position := by
  obtain ⟨hrest, -⟩ := Remaining.takeIf_eq_some_iff.mp hoperator
  have hascends := h.ascends
  rw [Parsed.Ascends, List.nil_append, hrest, Token.Ascending, List.pairwise_append] at hascends
  calc e.expression.position
      = (e.expression.tokens.head e.expression.tokens_ne_nil).position :=
        e.expression.position_eq_head_tokens
    _ ≤ operator.position := hascends.2.2 _ (List.head_mem _) operator (by simp)
    _ < ((Remaining.tokens us).current p.endOfFile).position :=
        (h.inLine_rest hline hoperator).head_lt_current

end Parsed.IsBegun

namespace Parser

/-- A call is made at the front of tokens that stand in line, or with a left operand that was. -/
def Call.IsReady (p : Parser) : Call → Prop
  | .chain _ _ r | .operand _ _ r | .primary _ r => Token.InLine p.endOfFile r.toList
  | .extend l _ left => ∃ ts, Token.InLine p.endOfFile ts ∧ left.IsBegun p l ts

section

variable {p : Parser} {m : Nat} (hpos : ∀ m, p.limit = some m → 0 < m)
  (hmark : p.endOfFile.kind = .endOfFile)

include hpos hmark

/-- The first operand of a chain is a left operand that was begun on the tokens in front of the
chain. -/
theorem isBegun_first {l : Level} {n : Nat} {r : Remaining} {first : Parsed}
    (hline : Token.InLine p.endOfFile r.toList) (h : p.Returns (.operand l n r) first) :
    first.IsBegun p l r.toList := by
  have hfits : first.Fits p l.operands := fits_of_returns hpos h
  exact ⟨⟨.single hfits.derives, hfits.height_eq, hfits.height_le⟩,
    keeps_of_returns hmark h hline.written, ascends_of_returns h [] hline.ascending⟩

/-- A left operand that was begun stays one when another operand is joined to it. -/
theorem isBegun_join {l : Level} {n : Nat} {ts us : List Token} {left right : Parsed}
    {operator : Token} (hline : Token.InLine p.endOfFile ts) (hleft : left.IsBegun p l ts)
    (hoperator : left.rest.takeIf l.has = some (operator, us))
    (hright : p.Returns (.operand l n (.tokens us)) right) :
    (p.join left operator right).IsBegun p l ts := by
  obtain ⟨hrest, hkind⟩ := Remaining.takeIf_eq_some_iff.mp hoperator
  have hfits : right.Fits p l.operands := fits_of_returns hpos hright
  have hus : Token.AllWritten us :=
    (Token.AllWritten.of_cons (hrest ▸ hleft.keeps.allWritten_rest hline.written)).2
  refine ⟨fits_bounded hpos (.step hleft.fits.derives hkind hfits.derives) ?_,
    keeps_join hline.written hleft.keeps hrest hkind (keeps_of_returns hmark hright hus),
    ascends_join (ascends_of_returns hright _ ?_)⟩
  · simp only [Expression.height, hleft.fits.height_eq, hfits.height_eq]
  · simpa [Parsed.Ascends, hrest] using hleft.ascends

/-- A call that is ready makes calls that are. -/
theorem isReady_of_calls {c d : Call} (h : p.Calls c d) (hc : c.IsReady p) : d.IsReady p := by
  cases h with
  | first | sumOperand | productOperand => exact hc
  | others hfirst => exact ⟨_, hc, isBegun_first hpos hmark hc hfirst⟩
  | right hoperator =>
      obtain ⟨ts, hline, hleft⟩ := hc
      exact (hleft.inLine_rest hline hoperator).of_cons
  | further hoperator hright =>
      obtain ⟨ts, hline, hleft⟩ := hc
      exact ⟨ts, hline, isBegun_join hpos hmark hline hleft hoperator hright⟩
  | @inner n r opening us hopening =>
      obtain ⟨htokens, -⟩ := Remaining.takeIf_eq_some_iff.mp hopening
      rw [Call.IsReady, htokens] at hc
      exact hc.of_cons

/-- Whatever call is made on the way from one that is ready is ready. -/
theorem isReady_of_reaches {c d : Call} (h : p.Reaches c d) (hc : c.IsReady p) : d.IsReady p := by
  induction h with
  | refl => exact hc
  | tail _ hcall ih => exact isReady_of_calls hpos hmark hcall ih

end

end Parser

/-! ### Open groups -/

/-- In the tokens there are `n` more opening parentheses than closing ones. -/
def Token.LeavesOpen (n : Nat) (ts : List Token) : Prop :=
  ts.countP (·.kind == .groupOpen) = ts.countP (·.kind == .groupClose) + n

namespace Token.LeavesOpen

variable {n k : Nat} {ts us : List Token}

/-- Without tokens no group is open. -/
theorem nil : LeavesOpen 0 [] := rfl

/-- Groups that are open add up. -/
theorem append (hts : LeavesOpen n ts) (hus : LeavesOpen k us) :
    LeavesOpen (n + k) (ts ++ us) := by
  rw [LeavesOpen] at hts hus ⊢
  rw [List.countP_append, List.countP_append]
  omega

/-- An opening parenthesis opens one more. -/
theorem concat_opening {t : Token} (hts : LeavesOpen n ts) (hkind : t.kind = .groupOpen) :
    LeavesOpen (n + 1) (ts ++ [t]) :=
  hts.append (k := 1) (by simp [LeavesOpen, hkind])

/-- An operator opens none. -/
theorem concat_operator {l : Level} {t : Token} (hts : LeavesOpen n ts) (hkind : l.has t.kind) :
    LeavesOpen n (ts ++ [t]) := by
  refine hts.append (k := 0) ?_
  cases hk : t.kind with
  | operator o => simp [LeavesOpen, hk]
  | _ => simp [hk, Level.has, Token.Kind.operator?] at hkind

end Token.LeavesOpen

/-- A derivation opens and closes the same number of groups. Induction on the derivation. -/
theorem Derives.leavesOpen {c : Category} {e : Expression} (h : Derives c e) :
    Token.LeavesOpen 0 e.tokens := by
  induction h with
  | numeral hkind => simp [Token.LeavesOpen, Expression.tokens, hkind]
  | group hopening _ hclosing ih =>
      rw [Token.LeavesOpen] at ih ⊢
      simp only [Expression.tokens, List.cons_append, List.countP_cons, List.countP_append,
        List.countP_nil, hopening, hclosing]
      simp
      omega
  | single _ ih => exact ih
  | @step l left right operator _ hoperator _ ihleft ihright =>
      have happend := (ihleft.concat_operator hoperator).append ihright
      simpa [Expression.tokens] using happend

/-- Where no closing parenthesis was lost, the written tokens of a derivation open and close the
same number of groups: the stand-ins are all numerals. -/
theorem Parsed.Keeps.leavesOpen_written {ts : List Token} {e : Parsed} (h : e.Keeps ts)
    {c : Category} (hderives : Derives c e.expression)
    (hnone : ∀ t ∈ e.expression.tokens, ¬ t.IsLost) :
    Token.LeavesOpen 0 e.expression.written := by
  have hopening : ∀ t ∈ e.expression.tokens,
      ((t.kind == .groupOpen && !t.isEmpty) = true ↔ (t.kind == .groupOpen) = true) := by
    intro t ht
    cases hempty : t.isEmpty with
    | false => simp
    | true => rcases (h.standIn t ht hempty).1 with hkind | hkind <;> simp [hkind]
  have hclosing : ∀ t ∈ e.expression.tokens,
      ((t.kind == .groupClose && !t.isEmpty) = true ↔ (t.kind == .groupClose) = true) := by
    intro t ht
    have hlost := hnone t ht
    rw [Token.IsLost] at hlost
    cases hempty : t.isEmpty <;> simp_all
  rw [Token.LeavesOpen, Expression.written, List.countP_filter, List.countP_filter,
    List.countP_congr hopening, List.countP_congr hclosing]
  exact hderives.leavesOpen

namespace Parser

variable {p : Parser} {m : Nat} {ts : List Token}

/-- A result under a limit that was not given up leaves out none of the tokens it was read from: it
is the result of the same call without a limit. -/
theorem written_eq_of_isLive (hlimit : p.limit = some m) (hpos : 0 < m)
    (hmark : p.endOfFile.kind = .endOfFile) {l : Level} {n : Nat} {r : Remaining} {e : Parsed}
    (h : p.Returns (.operand l n r) e) (hr : r.IsLive) (hwritten : Token.AllWritten r.toList)
    (hlive : e.rest.IsLive) : e.expression.written ++ e.rest.toList = r.toList := by
  have hreturns := p.unlimited.returns_result (.operand l n r)
  have htracks : (p.operand l n r).Tracks m n (p.unlimited.operand l n r) :=
    tracked_of_returns hlimit hpos hmark hreturns hr
  have haccounts : (p.unlimited.operand l n r).Accounts (r.toList ++ [p.endOfFile]) r.toList :=
    accounts_of_returns (p := p.unlimited) rfl hmark (by simp [unlimited]) hreturns hr hwritten
      (by simp)
  obtain rfl : e = p.operand l n r := returns_iff.mp h
  rcases htracks.eq_or_gaveUp with ⟨heq, -⟩ | ⟨hrest, -⟩
  · rw [heq]
    exact haccounts.written_eq
  · exact absurd hrest hlive

/-- What was joined and not given up is the node of both operands. -/
theorem join_of_isLive {left right : Parsed} {operator : Token}
    (hlive : (p.join left operator right).rest.IsLive) :
    p.join left operator right = p.unlimited.join left operator right := by
  rw [join_eq_bounded] at hlive ⊢
  rcases p.bounded_eq_or (p.unlimited.join left operator right) with h | ⟨m, -, -, h⟩
  · exact h
  · rw [h] at hlive
    exact absurd rfl hlive

/-- How a call stands in the tokens of a line: those before it leave open as many groups as it
knows of. Where a chain goes on from a left operand, these are the tokens before this operand, and
between it and what is left no token is missing. -/
def Call.StandsIn (ts : List Token) : Call → Prop
  | .chain _ n r | .operand _ n r | .primary n r =>
    r.IsLive ∧ ∃ before, ts = before ++ r.toList ∧ Token.LeavesOpen n before
  | .extend _ n left => left.rest.IsLive →
    ∃ before, ts = before ++ (left.expression.written ++ left.rest.toList) ∧
      Token.LeavesOpen n before

/-- A call that stands in the tokens of a line makes calls that do. -/
theorem standsIn_of_calls (hlimit : p.limit = some m) (hpos : 0 < m)
    (hmark : p.endOfFile.kind = .endOfFile) {c d : Call} (h : p.Calls c d) (hready : c.IsReady p)
    (hc : c.StandsIn ts) : d.StandsIn ts := by
  cases h with
  | first | sumOperand | productOperand => exact hc
  | others hfirst =>
      obtain ⟨hr, before, rfl, hbefore⟩ := hc
      intro hlive
      have htokens := written_eq_of_isLive hlimit hpos hmark hfirst hr hready.written hlive
      exact ⟨before, by rw [htokens], hbefore⟩
  | @right l n left operator us hoperator =>
      obtain ⟨line, -, hbegun⟩ := hready
      obtain ⟨hrest, hkind⟩ := Remaining.takeIf_eq_some_iff.mp hoperator
      obtain ⟨before, rfl, hbefore⟩ := hc (Remaining.isLive_of_toList_eq_cons hrest)
      have hleft := hbegun.keeps.leavesOpen_written hbegun.fits.derives
        (not_isLost_of_operator hbegun.keeps hrest hkind)
      refine ⟨by simp, before ++ left.expression.written ++ [operator], ?_,
        (hbefore.append hleft).concat_operator hkind⟩
      rw [hrest]
      simp
  | @further l n left right operator us hoperator hright =>
      obtain ⟨line, hline, hbegun⟩ := hready
      obtain ⟨hrest, -⟩ := Remaining.takeIf_eq_some_iff.mp hoperator
      obtain ⟨before, rfl, hbefore⟩ := hc (Remaining.isLive_of_toList_eq_cons hrest)
      obtain ⟨hwritten, hus⟩ := (hbegun.inLine_rest hline hoperator).written.of_cons
      intro hlive
      -- both operands are whole, so nothing is missing between them
      have hjoin := join_of_isLive hlive
      rw [hjoin] at hlive ⊢
      have htokens := written_eq_of_isLive hlimit hpos hmark hright (by simp) hus hlive
      rw [Remaining.toList_tokens] at htokens
      refine ⟨before, ?_, hbefore⟩
      rw [hrest, ← htokens]
      simp [join, bounded_of_limit_none (p := p.unlimited) rfl, Expression.written_binary hwritten]
  | @inner n r opening us hopening hexhausted =>
      obtain ⟨hr, before, rfl, hbefore⟩ := hc
      obtain ⟨htokens, hkind⟩ := Remaining.takeIf_eq_some_iff.mp hopening
      refine ⟨by simp, before ++ [opening], ?_, hbefore.concat_opening (by simpa using hkind)⟩
      rw [htokens]
      simp

/-- **Open groups.** Every call that is made while a line is read stands in the tokens of the line:
the groups that it counts as open are those that the tokens before it leave open. -/
theorem standsIn_of_reaches (hlimit : p.limit = some m) (hpos : 0 < m)
    (hmark : p.endOfFile.kind = .endOfFile) (hts : Token.InLine p.endOfFile ts) {d : Call}
    (h : p.Reaches (.chain .sum 0 (.tokens ts)) d) : d.StandsIn ts := by
  induction h with
  | refl => exact ⟨by simp, [], rfl, .nil⟩
  | @tail c d hreaches hcall ih =>
      have hready : c.IsReady p := isReady_of_reaches (limit_pos hlimit hpos) hmark hreaches hts
      exact standsIn_of_calls hlimit hpos hmark hcall hready ih

end Parser

end Calculator
