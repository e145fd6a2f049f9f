import Dialogue.Outline
import Dialogue.Proofs.Expr.Mention

/-!
# Logs

What a piece of a script says about its blocks, its lines and its variables is its
*log*: the ids of the blocks in it, the nodes that are lines of their own, and what all
its expressions mention. The log of a script is put together from those of its parts.

The facts that are collected while a script is read should be its log, with offsets and
without what the variables do not need. This is the invariant of the grammar
(`Facts.Match`). It also says what the rules check as they go: every id is claimed once
and is not the id of the main block, every call has the signature of its binding, and no
line leads to a block other than by a jump.

There is one lemma for each way in which facts are noted. Ids may be noted in another
order than the one they stand in, because an option without an id is given one only when
all options of its choice are read.
-/

namespace Dialogue

namespace Node

/-- The expression of a node. -/
def expr? : Node → Option ((k : Category) × Expr k)
  | say _ dialog => some ⟨.text, dialog⟩
  | append _ dialog => some ⟨.text, dialog⟩
  | offer _ text => some ⟨.text, text⟩
  | pause seconds => some ⟨.number, seconds⟩
  | _ => none

/-- What the expression of a node mentions. -/
def mentions (n : Node) : List Mention :=
  match n.expr? with
  | some e => e.2.mentions
  | none => []

/-- Where a jump leads to. -/
def jump? : Node → Option String
  | jump id => some id
  | _ => none

/-- A node that leads to no block, unless it is a jump. -/
def Plain (n : Node) : Prop := n.target? = n.jump?

end Node

/-- What a piece of a script says. -/
structure Log where
  /-- The ids of the blocks in it. -/
  ids : List String := []
  /-- The nodes that are lines of their own. -/
  lines : List Node := []
  /-- What its expressions mention. -/
  mentions : List Mention := []

namespace Log

/-- One log is put behind another. -/
instance : Append Log where
  append l m := ⟨l.ids ++ m.ids, l.lines ++ m.lines, l.mentions ++ m.mentions⟩

/-- The log of nothing. -/
def empty : Log := {}

/-- The log of a block id. -/
def ofId (id : String) : Log := { ids := [id] }

/-- The ids of two logs are those of the one and then those of the other. -/
@[simp] theorem ids_append (l m : Log) : (l ++ m).ids = l.ids ++ m.ids := rfl

/-- The lines of two logs are those of the one and then those of the other. -/
@[simp] theorem lines_append (l m : Log) : (l ++ m).lines = l.lines ++ m.lines := rfl

/-- The mentions of two logs are those of the one and then those of the other. -/
@[simp] theorem mentions_append (l m : Log) : (l ++ m).mentions = l.mentions ++ m.mentions := rfl

/-- A log is told by its ids, its lines and its mentions. -/
theorem ext {l m : Log} (hi : l.ids = m.ids) (hl : l.lines = m.lines)
    (hm : l.mentions = m.mentions) : l = m := by
  cases l
  cases m
  simp_all

/-- Logs in a row may be grouped in any way. -/
theorem append_assoc (l m n : Log) : l ++ m ++ n = l ++ (m ++ n) :=
  ext (List.append_assoc ..) (List.append_assoc ..) (List.append_assoc ..)

/-- An empty log adds nothing at the end. -/
@[simp] theorem append_empty (l : Log) : l ++ empty = l :=
  ext (List.append_nil _) (List.append_nil _) (List.append_nil _)

/-- An empty log adds nothing at the start. -/
@[simp] theorem empty_append (l : Log) : empty ++ l = l := ext rfl rfl rfl

/-- Several logs in a row. -/
def concat (ls : List Log) : Log := ls.foldr (· ++ ·) empty

/-- No logs make an empty one. -/
@[simp] theorem concat_nil : concat [] = empty := rfl

/-- A list of logs is the first one and then the others. -/
@[simp] theorem concat_cons (l : Log) (ls : List Log) : concat (l :: ls) = l ++ concat ls := rfl

/-- Two lists of logs are put together one after the other. -/
theorem concat_append (ls ms : List Log) : concat (ls ++ ms) = concat ls ++ concat ms := by
  induction ls with
  | nil => rw [List.nil_append, concat_nil, empty_append]
  | cons l ls ih => rw [List.cons_append, concat_cons, concat_cons, ih, append_assoc]

end Log

/-- The log of an expression. -/
def Expr.log {k : Category} (e : Expr k) : Log := { mentions := e.mentions }

/-- Expressions that mention the same have the same log. -/
theorem Expr.log_eq {j k : Category} {e : Expr j} {e' : Expr k} (h : e.mentions = e'.mentions) :
    e.log = e'.log :=
  Log.ext rfl rfl h

/-- A literal has nothing to log. -/
@[simp] theorem Expr.log_literal {k : Category} (v : k.Carrier) : (literal v).log = .empty :=
  Log.ext rfl rfl (mentions_literal v)

/-- A concatenation logs its operands in order. -/
@[simp] theorem Expr.log_concat (l r : Expr .text) : (concat l r).log = l.log ++ r.log := rfl

/-- The log of arguments. -/
def Args.log (args : Args) : Log := { mentions := args.mentions }

/-- The log of a node on a line of its own. -/
def Node.log (n : Node) : Log := { lines := [n], mentions := n.mentions }

/-- The log of the lines of a level and all that is below them. -/
def Outline.log : Outline → Log
  | nil => .empty
  | node n rest => n.log ++ rest.log
  | label id body rest => .ofId id ++ body.log ++ rest.log
  | option id prompt body rest => .ofId id ++ prompt.log ++ body.log ++ rest.log

/-- Passages in a row may be grouped in any way. -/
theorem Outline.append_assoc (o p q : Outline) : o ++ p ++ q = o ++ (p ++ q) := by
  change (o.append p).append q = o.append (p.append q)
  induction o with
  | nil => rfl
  | node n rest ih => rw [append, append, append, ih]
  | label id body rest _ ih => rw [append, append, append, ih]
  | option id prompt body rest _ ih => rw [append, append, append, ih]

/-- Two lists of passages are put together one after the other. -/
theorem Outline.concat_append (os ps : List Outline) :
    concat (os ++ ps) = concat os ++ concat ps := by
  induction os with
  | nil => rfl
  | cons o os ih =>
    change o ++ concat (os ++ ps) = (o ++ concat os) ++ concat ps
    rw [ih, append_assoc]

/-- Two passages have both of their logs. -/
theorem Outline.log_append (o p : Outline) : (o ++ p).log = o.log ++ p.log := by
  change (o.append p).log = _
  induction o with
  | nil => exact (Log.empty_append _).symm
  | node n rest ih => rw [append, log, log, ih, Log.append_assoc]
  | label id body rest _ ih => rw [append, log, log, ih, ← Log.append_assoc]
  | option id prompt body rest _ ih => rw [append, log, log, ih, ← Log.append_assoc]

/-- A list of passages has the logs of all of them. -/
theorem Outline.log_concat (os : List Outline) : (concat os).log = .concat (os.map log) := by
  induction os with
  | nil => rfl
  | cons o os ih => rw [List.map_cons, Log.concat_cons, ← ih, ← log_append]; rfl

/-- The facts are those of a log, and the log is one that the rules accept. -/
structure Facts.Match (registry : String → Option Signature) (f : Facts) (l : Log) : Prop where
  /-- The claimed ids. -/
  declared : (f.declared.map (·.item)).Perm l.ids
  /-- No id is claimed twice. -/
  distinct : l.ids.Nodup
  /-- The main block is not claimed. -/
  named : Graph.main ∉ l.ids
  /-- The jumps. -/
  jumps : f.jumps.map (·.item) = l.lines.filterMap Node.jump?
  /-- No line is an offer. -/
  plain : ∀ n ∈ l.lines, n.Plain
  /-- The uses of variables. -/
  uses : f.uses.map (·.item) = l.mentions.filterMap Mention.use?
  /-- The calls fit. -/
  calls : ∀ m ∈ l.mentions, m.Fits registry

namespace Facts.Match

variable {registry : String → Option Signature} {f : Facts} {l m : Log}

/-- In the beginning nothing is known. -/
theorem empty : Facts.empty.Match registry .empty where
  declared := .nil
  distinct := .nil
  named := List.not_mem_nil
  jumps := rfl
  plain _ h := nomatch h
  uses := rfl
  calls _ h := nomatch h

/-- The order of the ids does not matter. -/
theorem perm (h : f.Match registry l) (hids : l.ids.Perm m.ids) (hlines : l.lines = m.lines)
    (hmentions : l.mentions = m.mentions) : f.Match registry m where
  declared := h.declared.trans hids
  distinct := hids.nodup_iff.1 h.distinct
  named hm := h.named (hids.mem_iff.2 hm)
  jumps := hlines ▸ h.jumps
  plain := hlines ▸ h.plain
  uses := hmentions ▸ h.uses
  calls := hmentions ▸ h.calls

/-- What is noted for a log after another one must be what the rules accept there: its ids
    are new, its jumps and its uses are noted, and its calls fit. -/
theorem add {f' : Facts} (h : f.Match registry l)
    (hdeclared : f'.declared.map (·.item) = f.declared.map (·.item) ++ m.ids)
    (hdistinct : m.ids.Nodup) (hnew : ∀ id ∈ m.ids, id ∉ l.ids ∧ id ≠ Graph.main)
    (hjumps : f'.jumps.map (·.item) = f.jumps.map (·.item) ++ m.lines.filterMap Node.jump?)
    (hplain : ∀ n ∈ m.lines, n.Plain)
    (huses : f'.uses.map (·.item) = f.uses.map (·.item) ++ m.mentions.filterMap Mention.use?)
    (hcalls : ∀ x ∈ m.mentions, x.Fits registry) : f'.Match registry (l ++ m) where
  declared := hdeclared ▸ h.declared.append_right m.ids
  distinct := by
    refine List.nodup_append.2 ⟨h.distinct, hdistinct, fun a ha b hb hab => ?_⟩
    exact (hnew b hb).1 (hab ▸ ha)
  named hm := by
    rcases List.mem_append.1 hm with hm | hm
    · exact h.named hm
    · exact (hnew _ hm).2 rfl
  jumps := by rw [hjumps, h.jumps, Log.lines_append, List.filterMap_append]
  plain n hn := (List.mem_append.1 hn).elim (h.plain n) (hplain n)
  uses := by rw [huses, h.uses, Log.mentions_append, List.filterMap_append]
  calls x hx := (List.mem_append.1 hx).elim (h.calls x) (hcalls x)

/-- A use of variables is noted. -/
theorem note {i : Nat} {u : Use} (h : f.Match registry l) :
    Match registry { f with uses := f.uses ++ [⟨i, u⟩] } (l ++ { mentions := [.use u] }) := by
  refine h.add (by simp) .nil nofun (by simp) nofun ?_ fun x hx => ?_
  · rw [List.map_append]
    rfl
  · rw [List.mem_singleton.1 hx]
    trivial

/-- A mention that tells nothing about categories needs no fact. -/
theorem mention {x : Mention} (h : f.Match registry l) (hx : x.use? = none)
    (hfits : x.Fits registry) : f.Match registry (l ++ { mentions := [x] }) := by
  refine h.add (by simp) .nil nofun (by simp) nofun (by simp [hx]) fun y hy => ?_
  rw [List.mem_singleton.1 hy]
  exact hfits

/-- The facts of the arguments are those of a call, which must fit. -/
theorem call {k : Category} {name : String} {args : Args} {s : Signature}
    (h : f.Match registry (l ++ args.log)) (hs : registry name = some s) (hk : s.result = k)
    (hargs : args.categories = s.params) :
    f.Match registry (l ++ (Expr.call (k := k) name args).log) where
  declared := h.declared
  distinct := h.distinct
  named := h.named
  jumps := h.jumps
  plain := h.plain
  uses := by
    rw [h.uses, Log.mentions_append, Log.mentions_append, Expr.log, Expr.mentions,
      List.filterMap_append, List.filterMap_append, List.filterMap_cons_none rfl]
    rfl
  calls := by
    intro m hm
    rw [Log.mentions_append, Expr.log, Expr.mentions, List.mem_append, List.mem_cons] at hm
    rcases hm with hm | rfl | hm
    · exact h.calls m (List.mem_append_left _ hm)
    · rw [hargs, ← hk]
      exact hs
    · exact h.calls m (List.mem_append_right _ hm)

/-- The facts of its expression are those of a node that leads nowhere. -/
theorem line {n : Node} (h : f.Match registry (l ++ { mentions := n.mentions }))
    (hn : n.target? = none) (hj : n.jump? = none) : f.Match registry (l ++ n.log) := by
  have hline : f.Match registry (l ++ { mentions := n.mentions } ++ { lines := [n] }) := by
    refine h.add (by simp) .nil nofun (by simp [hj]) (fun x hx => ?_) (by simp) nofun
    rw [List.mem_singleton.1 hx]
    exact hn.trans hj.symm
  exact hline.perm (by simp [Node.log]) (by simp [Node.log]) (by simp [Node.log])

/-- A jump is noted. -/
theorem jumpTo {i : Nat} {id : String} (h : f.Match registry l) :
    (f.jumpTo i id).Match registry (l ++ (Node.jump id).log) := by
  refine h.add (by simp [Facts.jumpTo, Node.log]) .nil nofun ?_ (fun x hx => ?_) ?_ nofun
  · rw [Facts.jumpTo, List.map_append]
    rfl
  · rw [List.mem_singleton.1 hx]
    rfl
  · exact (List.append_nil _).symm

/-- An id is declared if it is in the log. -/
theorem isDeclared_iff (h : f.Match registry l) {id : String} :
    f.isDeclared id ↔ id ∈ l.ids := by
  rw [← h.declared.mem_iff, Facts.isDeclared, List.any_eq_true, List.mem_map]
  simp only [decide_eq_true_eq]

/-- An id is claimed. -/
theorem declare {i : Nat} {id : String} (h : f.Match registry l) (hid : f.isDeclared id = false)
    (hmain : id ≠ Graph.main) : (f.declare i id).Match registry (l ++ .ofId id) := by
  refine h.add ?_ (by simp [Log.ofId]) (fun x hx => ?_) (by simp [Facts.declare, Log.ofId])
    nofun (by simp [Facts.declare, Log.ofId]) nofun
  · rw [Facts.declare, List.map_append]
    rfl
  · obtain rfl := List.mem_singleton.1 hx
    refine ⟨fun hm => ?_, hmain⟩
    rw [h.isDeclared_iff.2 hm] at hid
    cases hid

end Facts.Match

end Dialogue
