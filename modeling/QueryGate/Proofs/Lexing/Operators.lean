import QueryGate.Proofs.Lexing.Front

namespace QueryGate.Sql.Lexer

/-!
# Operators are read locally

Every operator is found by walking down a tree of characters: at each node the next character is
taken if it is the one of the node.  `Operators` is that tree and `Operators.read` the walk;
`Operators.read_local` shows once that walks are local, and the readers of `Sql.Lexer.Operator` are
walks (`minusToken_eq` and the equations after it).
-/

/-- A tree of operators. -/
inductive Operators where
  /-- A known operator that nothing extends. -/
  | known (text : String)
  /-- A known operator that operator characters may extend. -/
  | extended (text : String)
  /-- What is an operator only if it is extended. -/
  | onlyExtended (text : String)
  /-- A known operator that takes the character behind it along, and closes nothing. -/
  | greedy (text : String)
  /-- The choice by the next character. -/
  | next (c : Char) (taken left : Operators)
deriving DecidableEq

namespace Operators

/-- The walk down a tree. -/
def read (d : Dialect) : Operators → List Char → Step
  | known text, cs => .ok (.symbol text, cs)
  | extended text, cs => .ok (extensible d text cs)
  | onlyExtended text, cs => Lexer.onlyExtended d text cs
  | greedy text, cs => .ok (.symbol text, cs.tail)
  | next c taken left, cs => whenHead (· == c) (fun _ => taken.read d) (left.read d) cs

/-- No node asks for a break, a blank or a digit. -/
def isPlain : Operators → Bool
  | next c taken left =>
    !(breaks ++ blanks).contains c && !c.isDigit && taken.isPlain && left.isPlain
  | greedy text => isOperator (.symbol text)
  | _ => true

variable {d : Dialect}

@[simp] theorem read_known (text : String) (cs : List Char) :
    (known text).read d cs = .ok (.symbol text, cs) := rfl

@[simp] theorem read_extended (text : String) (cs : List Char) :
    (extended text).read d cs = .ok (extensible d text cs) := rfl

@[simp] theorem read_onlyExtended (text : String) (cs : List Char) :
    (onlyExtended text).read d cs = Lexer.onlyExtended d text cs := rfl

@[simp] theorem read_greedy (text : String) (cs : List Char) :
    (greedy text).read d cs = .ok (.symbol text, cs.tail) := rfl

@[simp] theorem read_next_nil (c : Char) (taken left : Operators) :
    (next c taken left).read d [] = left.read d [] := rfl

@[simp] theorem read_next_cons (c x : Char) (taken left : Operators) (cs : List Char) :
    (next c taken left).read d (x :: cs)
      = if x = c then taken.read d cs else left.read d (x :: cs) := by
  rw [read, whenHead]
  simp only [beq_iff_eq]

@[simp] theorem read_next_of_ne {c : Char} {cs : List Char} (taken left : Operators)
    (h : ∀ rest, ¬cs = c :: rest) : (next c taken left).read d cs = left.read d cs := by
  cases cs with
  | nil => rfl
  | cons x cs => rw [read_next_cons, if_neg fun hx => h cs (by rw [hx])]

end Operators

/-! ### Walks are local -/

theorem isOperatorPart_class : Visible isOperatorPart := ⟨⟨by decide, by decide⟩, by decide⟩

/-- Without custom operators nothing is extended. -/
theorem extensible_of_plain {d : Dialect} (h : d.customOperators = false) (text : String)
    (cs : List Char) : extensible d text cs = (.symbol text, cs) := by
  simp [extensible, h]

/-- A space does not extend an operator. -/
theorem extensible_space (d : Dialect) (text : String) (cs : List Char) :
    extensible d text (' ' :: cs) = (.symbol text, ' ' :: cs) := by
  have hspace : isOperatorPart ' ' = false := isOperatorPart_class.breaks _ (by decide)
  simp [extensible, hspace]

/-- An operator that may be extended ends at the first character that extends none. -/
theorem extensible_local (d : Dialect) (text : String) :
    Local fun cs => .ok (extensible d text cs) := by
  cases hc : d.customOperators with
  | false =>
    -- a dialect without operators of its own reads the text alone
    have h : (fun cs => .ok (extensible d text cs)) = fun cs : List Char =>
        (.ok (.symbol text, cs) : Step) := funext fun cs => by rw [extensible_of_plain hc]
    rw [h]
    exact .keep _
  | true =>
    -- otherwise the operator runs as long as its characters do
    have h : (fun cs => .ok (extensible d text cs)) = whileIn isOperatorPart fun more =>
        .ok (if more.isEmpty then .symbol text else .customOperator (text ++ String.ofList more)) := by
      funext cs
      unfold extensible whileIn
      simp only [hc, if_true]
      split
      · next hempty => rw [List.isEmpty_iff.mp hempty]; rfl
      · rfl
    rw [h]
    exact .whileIn isOperatorPart_class _

theorem onlyExtended_local (d : Dialect) (text : String) : Local (onlyExtended d text) := by
  cases hc : d.customOperators with
  | false =>
    -- nothing extends the operator, so it is an error
    have h : onlyExtended d text = fun cs =>
        .error ⟨"Expected a valid binary operator after '" ++ text ++ "'", cs⟩ :=
      funext fun cs => by simp [onlyExtended, hc]
    rw [h]
    exact .fail _
  | true =>
    have h : onlyExtended d text = whileIn isOperatorPart fun more =>
        if more.isEmpty then .error ("Expected a valid binary operator after '" ++ text ++ "'")
        else .ok (.customOperator (text ++ String.ofList more)) := by
      funext cs
      unfold onlyExtended whileIn
      simp only [hc, if_true]
      split
      · rfl
      · rfl
    rw [h]
    exact .whileIn isOperatorPart_class _

/-- **Walks.** A walk down a tree that asks for no breaks, blanks or digits is local. -/
theorem Operators.read_local (d : Dialect) (tree : Operators) (h : tree.isPlain = true) :
    Local (tree.read d) := by
  induction tree with
  | known text => exact .keep _
  | extended text => exact extensible_local d text
  | onlyExtended text => exact onlyExtended_local d text
  | greedy text => exact .swallow h
  | next c taken left ihTaken ihLeft =>
    simp only [isPlain, Bool.and_eq_true, Bool.not_eq_true', List.contains_eq_mem,
      decide_eq_false_iff_not, and_assoc] at h
    obtain ⟨hbreak, hdigit, htaken, hleft⟩ := h
    exact .whenHead (class_eq hbreak hdigit) (fun _ => ihTaken htaken) (ihLeft hleft)

/-! ### The trees of the readers -/

namespace Operators

/-- What `-` starts. -/
def minus : Operators := .next '>' (.next '>' (.extended "->>") (.extended "->")) (.extended "-")

/-- What `|` starts, with the geometric operators or without. -/
def bar : Bool → Operators
  | true =>
    .next '/' (.extended "|/") <| .next '|' (.next '/' (.extended "||/") (.extended "||")) <|
    .next '&' (.next '>' (.extended "|&>") (.onlyExtended "|&")) <|
    .next '>' (.next '>' (.extended "|>>") (.onlyExtended "|>")) <| .extended "|"
  | false =>
    .next '/' (.extended "|/") <| .next '|' (.next '/' (.extended "||/") (.extended "||")) <|
    .extended "|"

/-- What `=` starts. -/
def equals : Operators := .next '>' (.known "=>") <| .next '=' (.known "==") <| .known "="

/-- What `!` starts. -/
def bang : Operators :=
  .next '=' (.known "<>") <| .next '!' (.known "!!") <|
  .next '~' (.next '*' (.known "!~*") <|
    .next '~' (.next '*' (.known "!~~*") (.known "!~~")) (.known "!~")) <| .known "!"

/-- What `<` starts. -/
def less : Bool → Operators
  | true =>
    .next '=' (.next '>' (.extended "<=>") (.extended "<=")) <| .next '|' (.extended "<<|") <|
    .next '>' (.extended "<>") <| .next '<' (.next '|' (.extended "<<|") (.extended "<<")) <|
    .next '-' (.next '>' (.extended "<->") (.onlyExtended "<-")) <|
    .next '^' (.extended "<^") <| .next '@' (.extended "<@") <| .extended "<"
  | false =>
    .next '=' (.next '>' (.extended "<=>") (.extended "<=")) <| .next '>' (.extended "<>") <|
    .next '<' (.extended "<<") <| .next '@' (.extended "<@") <| .extended "<"

/-- What `>` starts. -/
def greater : Bool → Operators
  | true =>
    .next '=' (.extended ">=") <| .next '>' (.extended ">>") <| .next '^' (.extended ">^") <|
    .extended ">"
  | false => .next '=' (.extended ">=") <| .next '>' (.extended ">>") <| .extended ">"

/-- What `:` starts. -/
def colon : Operators := .next ':' (.known "::") <| .next '=' (.known ":=") <| .known ":"

/-- What `&` starts. -/
def ampersand : Bool → Operators
  | true =>
    .next '>' (.greedy "&>") <| .next '<' (.next '|' (.known "&<|") (.extended "&<")) <|
    .next '&' (.extended "&&") <| .extended "&"
  | false => .next '&' (.extended "&&") <| .extended "&"

/-- What `~` starts. -/
def tilde : Bool → Operators
  | true =>
    .next '*' (.extended "~*") <| .next '=' (.extended "~=") <|
    .next '~' (.next '*' (.extended "~~*") (.extended "~~")) <| .extended "~"
  | false =>
    .next '*' (.extended "~*") <| .next '~' (.next '*' (.extended "~~*") (.extended "~~")) <|
    .extended "~"

/-- What `#` starts where it starts no comment. -/
def hash : Bool → Operators
  | true =>
    .next '-' (.extended "#-") <| .next '>' (.next '>' (.extended "#>>") (.extended "#>")) <|
    .next '#' (.extended "##") <| .extended "#"
  | false =>
    .next '-' (.extended "#-") <| .next '>' (.next '>' (.extended "#>>") (.extended "#>")) <|
    .extended "#"

/-- What `@` starts where it starts no word. -/
def atSign : Bool → Operators
  | true =>
    .next '@' (.known "@@") <| .next '>' (.known "@>") <| .next '?' (.known "@?") <|
    .next '-' (.next '@' (.known "@-@") (.onlyExtended "@-")) <| .known "@"
  | false =>
    .next '@' (.known "@@") <| .next '>' (.known "@>") <| .next '?' (.known "@?") <| .known "@"

/-- What `?` starts where it starts no placeholder. -/
def question : Operators :=
  .next '|' (.next '|' (.known "?||") (.known "?|")) <| .next '&' (.known "?&") <|
  .next '-' (.next '|' (.known "?-|") (.known "?-")) <| .next '#' (.known "?#") <| .greedy "?"

end Operators

variable (d : Dialect) (cs : List Char)

theorem minusToken_eq : .ok (minusToken d cs) = Operators.minus.read d cs := by
  unfold minusToken Operators.minus
  split <;> simp_all

theorem barToken_eq : barToken d cs = (Operators.bar d.customOperators).read d cs := by
  cases hc : d.customOperators <;> unfold barToken Operators.bar <;> repeat' split
  all_goals simp_all [extensible_of_plain]

theorem equalsToken_eq : .ok (equalsToken cs) = Operators.equals.read d cs := by
  unfold equalsToken Operators.equals
  split <;> simp_all

theorem bangToken_eq : .ok (bangToken cs) = Operators.bang.read d cs := by
  unfold bangToken Operators.bang
  split <;> simp_all

theorem lessToken_eq : lessToken d cs = (Operators.less d.customOperators).read d cs := by
  cases hc : d.customOperators <;> unfold lessToken Operators.less <;> repeat' split
  all_goals simp_all [extensible_of_plain]

theorem greaterToken_eq :
    .ok (greaterToken d cs) = (Operators.greater d.customOperators).read d cs := by
  cases hc : d.customOperators <;> unfold greaterToken Operators.greater <;> repeat' split
  all_goals simp_all [extensible_of_plain]

theorem colonToken_eq : .ok (colonToken cs) = Operators.colon.read d cs := by
  unfold colonToken Operators.colon
  split <;> simp_all

theorem ampersandToken_eq :
    .ok (ampersandToken d cs) = (Operators.ampersand d.customOperators).read d cs := by
  cases hc : d.customOperators <;> unfold ampersandToken Operators.ampersand <;> repeat' split
  all_goals simp_all [extensible_of_plain]

theorem tildeToken_eq : .ok (tildeToken d cs) = (Operators.tilde d.customOperators).read d cs := by
  cases hc : d.customOperators <;> unfold tildeToken Operators.tilde <;> repeat' split
  all_goals simp_all [extensible_of_plain]

theorem hashToken_eq : .ok (hashToken d cs) = (Operators.hash d.customOperators).read d cs := by
  cases hc : d.customOperators <;> unfold hashToken Operators.hash <;> repeat' split
  all_goals simp_all [extensible_of_plain, extensible_space]

theorem questionToken_eq : .ok (questionToken cs) = Operators.question.read d cs := by
  unfold questionToken Operators.question
  split <;> simp_all

/-- Where `@` starts no word it starts an operator. -/
theorem atToken_eq (hd : d.startsWord '@' = false) :
    atToken d cs = (Operators.atSign d.customOperators).read d cs := by
  cases hc : d.customOperators <;> unfold atToken Operators.atSign <;> repeat' split
  all_goals simp_all

end QueryGate.Sql.Lexer
