import Mathlib
import QueryGate.Sql.Parser.Source

namespace QueryGate.Sql

/-!
# What a query does besides reading

The nodes of a tree that write or lock: data-changing statements in the place of a query, targets
of `SELECT … INTO`, and row locks.  A query that only reads has none of them at any depth.

* `Query.effects` — the effects of a query, those of its common table expressions, subqueries and
  clauses included;
* `Effect.keyword` — the word that the grammar wants to see before it builds such a node;
* `Effectful` — the effects of all that the grammar passes around, so that what holds of a
  parser's result is one statement for every type;
* `Spelled` — a thing whose effects have their words among some words.  Its instances follow the
  constructors.
-/

/-- A way in which a query does more than read. -/
inductive Effect where
  | change (kind : Change)
  | into
  | lock (kind : Lock)
deriving DecidableEq, Repr

/-- The word that introduces an effect, in upper case. -/
def Effect.keyword : Effect → String
  | change .insert => "INSERT"
  | change .update => "UPDATE"
  | change .delete => "DELETE"
  | change .merge => "MERGE"
  | into => "INTO"
  | lock .forUpdate => "UPDATE"
  | lock .forShare => "SHARE"

mutual

/-- The effects of a query. -/
def Query.effects : Query → List Effect
  | .mk _ ctes body tail locks =>
    cteEffects ctes ++ body.effects ++ queryEffects tail ++ locks.map .lock

/-- The effects of common table expressions. -/
def cteEffects : List Cte → List Effect
  | [] => []
  | .mk _ q :: cs => q.effects ++ cteEffects cs

/-- The effects of a body. -/
def Body.effects : Body → List Effect
  | .select into reads => (if into.isSome then [.into] else []) ++ readEffects reads
  | .values queries => queryEffects queries
  | .nested q => q.effects
  | .combined left right => left.effects ++ right.effects
  | .table _ _ => []
  | .change kind reads => .change kind :: readEffects reads

/-- The effects of what a body reads. -/
def readEffects : List Read → List Effect
  | [] => []
  | .relation _ :: rs => readEffects rs
  | .query q :: rs => q.effects ++ readEffects rs

/-- The effects of queries in a row. -/
def queryEffects : List Query → List Effect
  | [] => []
  | q :: qs => q.effects ++ queryEffects qs

end

@[simp] theorem queryEffects_append (ps qs : List Query) :
    queryEffects (ps ++ qs) = queryEffects ps ++ queryEffects qs := by
  induction ps with
  | nil => rfl
  | cons p ps ih => simp [queryEffects, ih]

@[simp] theorem readEffects_append (rs ss : List Read) :
    readEffects (rs ++ ss) = readEffects rs ++ readEffects ss := by
  induction rs with
  | nil => rfl
  | cons r rs ih => cases r <;> simp [readEffects, ih]

/-! ### Effects of what the grammar passes around -/

/-- Things with effects in them. -/
class Effectful (α : Type) where
  effects : α → List Effect

instance : Effectful Unit := ⟨fun _ => []⟩
instance : Effectful Bool := ⟨fun _ => []⟩
instance : Effectful String := ⟨fun _ => []⟩
instance : Effectful Ident := ⟨fun _ => []⟩
instance : Effectful Dialect := ⟨fun _ => []⟩
instance : Effectful Parser.TypeKind := ⟨fun _ => []⟩
instance : Effectful Query := ⟨Query.effects⟩
instance : Effectful Cte := ⟨fun c => c.query.effects⟩
instance : Effectful Body := ⟨Body.effects⟩
instance : Effectful Read := ⟨fun r => readEffects [r]⟩
instance : Effectful Lock := ⟨fun l => [.lock l]⟩
instance : Effectful Change := ⟨fun c => [.change c]⟩
instance : Effectful Parser.Term := ⟨fun t => queryEffects t.queries⟩
instance : Effectful Parser.Source := ⟨fun s => readEffects s.reads⟩

instance : Effectful Statement where
  effects
    | .query q => q.effects
    | .change kind reads => .change kind :: readEffects reads

section

variable {α β : Type} [Effectful α] [Effectful β]

instance : Effectful (List α) := ⟨fun as => as.flatMap Effectful.effects⟩
instance : Effectful (Option α) := ⟨fun a => a.toList.flatMap Effectful.effects⟩
instance : Effectful (α × β) := ⟨fun p => Effectful.effects p.1 ++ Effectful.effects p.2⟩

end

/-- Things that have no effects. -/
class Silent (α : Type) [Effectful α] : Prop where
  silent : ∀ a : α, Effectful.effects a = []

instance : Silent Unit := ⟨fun _ => rfl⟩
instance : Silent Bool := ⟨fun _ => rfl⟩
instance : Silent String := ⟨fun _ => rfl⟩
instance : Silent Ident := ⟨fun _ => rfl⟩
instance : Silent Dialect := ⟨fun _ => rfl⟩
instance : Silent Parser.TypeKind := ⟨fun _ => rfl⟩

instance {α : Type} [Effectful α] [Silent α] : Silent (List α) :=
  ⟨fun as => by simp [Effectful.effects, Silent.silent]⟩

instance {α : Type} [Effectful α] [Silent α] : Silent (Option α) :=
  ⟨fun a => by cases a <;> simp [Effectful.effects, Silent.silent]⟩

/-- Effects are collected in order, so nesting lists makes no difference. -/
theorem effects_flatten {α : Type} [Effectful α] (ass : List (List α)) :
    Effectful.effects ass.flatten = Effectful.effects ass := by
  induction ass with
  | nil => rfl
  | cons as ass ih => exact List.flatMap_append.trans (congrArg (_ ++ ·) ih)

theorem cteEffects_eq (cs : List Cte) : cteEffects cs = Effectful.effects cs := by
  induction cs with
  | nil => rfl
  | cons c cs ih =>
    cases c
    rw [cteEffects, ih]
    rfl

theorem queryEffects_eq (qs : List Query) : queryEffects qs = Effectful.effects qs := by
  induction qs with
  | nil => rfl
  | cons q qs ih =>
    rw [queryEffects, ih]
    rfl

theorem readEffects_eq (rs : List Read) : readEffects rs = Effectful.effects rs := by
  induction rs with
  | nil => rfl
  | cons r rs ih =>
    rw [← List.singleton_append, readEffects_append, ih]
    rfl

/-! ### Effects with a word -/

variable (W : String → Prop)

/-- All effects have their words among `W`. -/
class Spelled {α : Type} [Effectful α] (a : α) : Prop where
  word : ∀ e ∈ Effectful.effects a, W e.keyword

namespace Spelled

section

variable {W} {α β γ : Type} [Effectful α] [Effectful β] [Effectful γ]

/-- A thing with the effects of another one. -/
theorem of_eq {a : α} (b : β) (h : Effectful.effects a = Effectful.effects b)
    [hb : Spelled W b] : Spelled W a :=
  ⟨fun e he => hb.word e (h ▸ he)⟩

/-- A thing with the effects of two others. -/
theorem of_append {a : α} (b : β) (c : γ)
    (h : Effectful.effects a = Effectful.effects b ++ Effectful.effects c)
    [hb : Spelled W b] [hc : Spelled W c] : Spelled W a :=
  ⟨fun e he => (List.mem_append.mp (h ▸ he)).elim (hb.word e) (hc.word e)⟩

instance silent [Silent α] (a : α) : Spelled W a :=
  ⟨fun e he => by rw [Silent.silent a] at he; cases he⟩

/-- A value that comes with its proof. -/
instance coe (a : Subtype (Spelled W : α → Prop)) : Spelled W a.val := a.property

/-! Lists, options and pairs -/

instance nil : Spelled W ([] : List α) := ⟨nofun⟩

instance cons {a : α} {as : List α} [Spelled W a] [Spelled W as] : Spelled W (a :: as) :=
  of_append a as rfl

instance append {as bs : List α} [Spelled W as] [Spelled W bs] : Spelled W (as ++ bs) :=
  of_append as bs List.flatMap_append

instance flatten {ass : List (List α)} [Spelled W ass] : Spelled W ass.flatten :=
  of_eq ass (effects_flatten ass)

instance none : Spelled W (Option.none : Option α) := ⟨nofun⟩

instance some {a : α} [Spelled W a] : Spelled W (Option.some a) := of_eq a (List.append_nil _)

theorem of_some {a : α} (h : Spelled W (Option.some a)) : Spelled W a :=
  ⟨fun e he => h.word e (List.mem_append_left _ he)⟩

instance getD {o : Option (List α)} [ho : Spelled W o] : Spelled W (o.getD []) := by
  cases o with
  | none => exact nil
  | some as => exact of_eq (Option.some as) (List.append_nil _).symm

instance pair {a : α} {b : β} [Spelled W a] [Spelled W b] : Spelled W (a, b) := of_append a b rfl

theorem fst {p : α × β} (h : Spelled W p) : Spelled W p.1 :=
  ⟨fun e he => h.word e (List.mem_append_left _ he)⟩

theorem snd {p : α × β} (h : Spelled W p) : Spelled W p.2 :=
  ⟨fun e he => h.word e (List.mem_append_right _ he)⟩

end

/-! Nodes of the grammar -/

section

variable {W} {qs : List Query} {rs : List Read} {q : Query}

instance queries {t : Parser.Term} [Spelled W t] : Spelled W t.queries :=
  of_eq t (queryEffects_eq _).symm

instance term {shape : Parser.Shape} [Spelled W qs] : Spelled W (Parser.Term.mk shape qs) :=
  of_eq qs (queryEffects_eq _)

instance termOf [Spelled W qs] : Spelled W (Parser.Term.of qs) := of_eq qs (queryEffects_eq _)

instance relation {n : Name} : Spelled W (Read.relation n) := ⟨nofun⟩

instance query [Spelled W q] : Spelled W (Read.query q) := of_eq q (List.append_nil _)

instance asReads [h : Spelled W qs] : Spelled W (Parser.asReads qs) := by
  refine of_eq qs ?_
  simp [Effectful.effects, Parser.asReads, List.flatMap_map, readEffects]

instance reads {s : Parser.Source} [Spelled W s] : Spelled W s.reads :=
  of_eq s (readEffects_eq _).symm

instance source {join : Bool} [Spelled W rs] : Spelled W (Parser.Source.mk join rs) :=
  of_eq rs (readEffects_eq _)

instance sourceOf [Spelled W rs] : Spelled W (Parser.Source.of rs) := of_eq rs (readEffects_eq _)

instance cte {i : Ident} [Spelled W q] : Spelled W (Cte.mk i q) := of_eq q rfl

instance values [Spelled W qs] : Spelled W (Body.values qs) :=
  of_eq qs (by simp only [Effectful.effects, Body.effects]; exact queryEffects_eq _)

instance nested [Spelled W q] : Spelled W (Body.nested q) := of_eq q rfl

instance combined {left right : Body} [Spelled W left] [Spelled W right] :
    Spelled W (Body.combined left right) := of_append left right rfl

instance table {schema : Option String} {name : String} : Spelled W (Body.table schema name) :=
  ⟨nofun⟩

/-- A selection with a target needs the word for it. -/
theorem select {into : Option Name} (hinto : into.isSome = true → W Effect.into.keyword)
    [hrs : Spelled W rs] : Spelled W (Body.select into rs) := by
  cases into with
  | none => exact of_eq rs (readEffects_eq _)
  | some n =>
    refine ⟨fun e he => ?_⟩
    cases he with
    | head => exact hinto rfl
    | tail _ he => exact hrs.word e (readEffects_eq rs ▸ he)

theorem kind {kind : Change} (h : W (Effect.change kind).keyword) : Spelled W kind :=
  ⟨fun _ he => List.mem_singleton.mp he ▸ h⟩

theorem lock {lock : Lock} (h : W (Effect.lock lock).keyword) : Spelled W lock :=
  ⟨fun _ he => List.mem_singleton.mp he ▸ h⟩

instance changed {kind : Change} [Spelled W kind] [Spelled W rs] :
    Spelled W (Body.change kind rs) := of_append kind rs (congrArg _ (readEffects_eq _))

instance whole {recursive : Bool} {ctes : List Cte} {body : Body} {locks : List Lock}
    [Spelled W ctes] [Spelled W body] [Spelled W qs] [Spelled W locks] :
    Spelled W (Query.mk recursive ctes body qs locks) :=
  of_append (ctes, body) (qs, locks) (by
    simp only [Effectful.effects, Query.effects, cteEffects_eq, queryEffects_eq,
      List.map_eq_flatMap, List.append_assoc])

instance statement [Spelled W q] : Spelled W (Statement.query q) := of_eq q rfl

instance change {kind : Change} [Spelled W kind] [Spelled W rs] :
    Spelled W (Statement.change kind rs) := of_append kind rs (congrArg _ (readEffects_eq _))

end

end Spelled

end QueryGate.Sql
