import Calculator.Reading
import Calculator.TokenStream

/-!
# The Parser with a Cursor

The grammar functions of `Parser` get what is left to read and the number of open groups as
arguments, and give back what is left behind the expression. Here the same routines work on one
**state** that they change as they go: a cursor into a stream, the diagnostics so far, a counter
that goes up where a group is opened and down where it was read, and a flag for having given up.
Giving up puts the cursor on the mark for the end, so that every routine that is still at work finds
nothing more to take.

`TokenStream.Runs` says how a routine runs, by one rule for each way through its body: the state in
which it is called, the **moments** that it passes through, and its outcome. The moments are all the
states from the call to the return in their order, those of the routines that it calls among them,
and with each call the routine that is called.

* `Parser.State` — what the parser keeps;
* `TokenStream.expect`, `TokenStream.abandon`, `TokenStream.bounded` — the steps;
* `Parser.Routine`, `TokenStream.Runs` — the routines and their runs;
* `TokenStream.reading` — what is made of the outcome for a whole line.
-/

namespace Calculator

namespace Parser

/-- What the parser keeps while it goes through a stream. -/
structure State where
  /-- The index of the next token: the **cursor**. -/
  index : Nat
  /-- What was reported so far. -/
  diagnostics : List Diagnostic
  /-- The number of groups that are open. -/
  nesting : Nat
  /-- Whether reading was given up. From then on nothing is reported. -/
  abandoned : Bool
deriving DecidableEq

namespace State

/-- In front of the first token. The defects of the single tokens are already known. -/
def start (defects : List Diagnostic) : State := ⟨0, defects, 0, false⟩

/-- One token further. -/
def advance (s : State) : State := { s with index := s.index + 1 }

/-- With one more group open. -/
def enter (s : State) : State := { s with nesting := s.nesting + 1 }

/-- With one group less open. -/
def leave (s : State) : State := { s with nesting := s.nesting - 1 }

/-- With one more report, unless reading was given up. -/
def note (d : Diagnostic) (s : State) : State :=
  if s.abandoned then s else { s with diagnostics := s.diagnostics ++ [d] }

end State

/-- What a routine returns, and the state in which it leaves the parser. -/
structure Outcome where
  /-- The expression. -/
  expression : Expression
  /-- The number of its levels, as it was counted on the way. -/
  height : Nat
  /-- The state on return. -/
  state : State
deriving DecidableEq

/-- The routines of the parser. -/
inductive Routine
  /-- Reads a chain of a level: a whole expression at the level of sums, an operand of one at the
  level of products. -/
  | chain (l : Level)
  /-- Goes round the loop of a chain, with what was read of it so far and the height of that. -/
  | extend (l : Level) (left : Expression) (height : Nat)
  /-- Reads a numeral or a group. -/
  | primary
deriving DecidableEq

/-- The routine that reads an operand of a chain. -/
def Routine.operand : Level → Routine
  | .sum => .chain .product
  | .product => .primary

/-- A moment of a run: a state, and the routine that is called in it, if one is. -/
structure Moment where
  /-- The routine that is called. -/
  call? : Option Routine
  /-- The state. -/
  state : State
deriving DecidableEq

/-- A routine is called. -/
def Moment.call (c : Routine) (s : State) : Moment := ⟨some c, s⟩

/-- A state is passed through. -/
def Moment.pass (s : State) : Moment := ⟨none, s⟩

/-- A moment in which a routine is called is not one that is only passed through. -/
@[simp] theorem Moment.call_ne_pass (c : Routine) (s t : State) : Moment.call c s ≠ .pass t := by
  simp [call, pass]

end Parser

namespace TokenStream

open Calculator.Parser (State Outcome Routine Moment)

/-! ### Steps -/

/-- The token at the cursor. -/
def current (S : TokenStream) (s : State) : Token :=
  S.peek s.index

/-- Takes the token at the cursor if it is of the given kind. Otherwise that is reported, and a
stand-in is made. -/
def expect (S : TokenStream) (kind : Token.Kind) (s : State) : Token × State :=
  let found := S.current s
  if found.kind = kind then (found, s.advance)
  else
    (.standIn kind found.position,
      s.note ⟨.unexpectedToken found.kind kind, found.position⟩)

/-- Gives up: that is reported, the cursor goes to the mark for the end, and a stand-in numeral is
returned. -/
def abandon (S : TokenStream) (position : Nat) (s : State) : Outcome where
  expression := .number (.standIn .number position)
  height := 1
  state := { s.note ⟨.tooDeep depthLimit, position⟩ with index := S.last, abandoned := true }

/-- Gives up an expression of more levels than the limit allows. -/
def bounded (S : TokenStream) (e : Expression) (height : Nat) (s : State) : Outcome :=
  if depthLimit < height then S.abandon e.position s else ⟨e, height, s⟩

/-- A numeral. -/
def numeral (S : TokenStream) (s : State) : Outcome :=
  let number := S.expect .number s
  ⟨.number number.1, 1, number.2⟩

/-- Two operands and the operator between them. -/
def join (S : TokenStream) (left : Expression) (height : Nat) (operator : Token)
    (right : Outcome) : Outcome :=
  S.bounded (.binary left operator right.expression) (max height right.height + 1) right.state

/-- An expression behind an opening parenthesis: the group is left, and the closing one should
follow. -/
def enclose (S : TokenStream) (opening : Token) (inner : Outcome) : Outcome :=
  let closing := S.expect .groupClose inner.state.leave
  S.bounded (.grouped opening inner.expression closing.1) (inner.height + 1) closing.2

/-! ### Runs -/

/-- The relation `S.Runs c s moments o` says that the routine `c`, called in the state `s`, passes
through the moments and returns with the outcome `o`. -/
inductive Runs (S : TokenStream) : Routine → State → List Moment → Outcome → Prop
  /-- A chain reads an operand and goes on from there. -/
  | chain {l : Level} {s : State} {moments moments' : List Moment} {first o : Outcome}
      (hfirst : Runs S (.operand l) s moments first)
      (hrest : Runs S (.extend l first.expression first.height) first.state moments' o) :
      Runs S (.chain l) s (.call (.chain l) s :: (moments ++ moments')) o
  /-- The loop is over where no operator of the level follows. -/
  | stop {l : Level} {left : Expression} {height : Nat} {s : State}
      (hnone : l.has (S.current s).kind = false) :
      Runs S (.extend l left height) s [.call (.extend l left height) s] ⟨left, height, s⟩
  /-- Otherwise the operator is taken, an operand is read, and the loop goes on with both. -/
  | step {l : Level} {left : Expression} {height : Nat} {s : State}
      {moments moments' : List Moment} {right joined o : Outcome}
      (hoperator : l.has (S.current s).kind = true)
      (hright : Runs S (.operand l) s.advance moments right)
      (hjoined : joined = S.join left height (S.current s) right)
      (hrest : Runs S (.extend l joined.expression joined.height) joined.state moments' o) :
      Runs S (.extend l left height) s
        (.call (.extend l left height) s :: (moments ++ moments')) o
  /-- Without an opening parenthesis a primary is a numeral. -/
  | numeral {s : State} (hkind : (S.current s).kind ≠ .groupOpen) :
      Runs S .primary s [.call .primary s, .pass (S.numeral s).state] (S.numeral s)
  /-- A group is refused when too many are open. -/
  | refused {s : State} {o : Outcome} (hkind : (S.current s).kind = .groupOpen)
      (hnesting : depthLimit ≤ s.nesting) (ho : o = S.abandon (S.current s).position s) :
      Runs S .primary s [.call .primary s, .pass o.state] o
  /-- A group is entered, a chain of sums is read in it, and it is left. -/
  | group {s : State} {moments : List Moment} {inner o : Outcome}
      (hkind : (S.current s).kind = .groupOpen) (hnesting : s.nesting < depthLimit)
      (hinner : Runs S (.chain .sum) s.advance.enter moments inner)
      (ho : o = S.enclose (S.current s) inner) :
      Runs S .primary s
        (.call .primary s :: .pass s.advance ::
          (moments ++ [.pass inner.state.leave,
            .pass (S.expect .groupClose inner.state.leave).2, .pass o.state])) o

/-- What a line is taken for when its expression was read: the mark for the end should follow. -/
def reading (S : TokenStream) (o : Outcome) : Reading :=
  let stop := S.expect .endOfFile o.state
  ⟨o.expression, stop.1, stop.2.diagnostics⟩

end TokenStream

end Calculator
