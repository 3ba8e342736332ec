import Mathlib.Data.List.Basic
import Mathlib.Tactic.Common

/-!
# Singly linked lists in a store of cells

A store maps cells to nodes, and every node owns the cell of its link. A list hangs
from a start cell: the list's root or the link of an earlier node. Unlinking,
inserting and cutting all overwrite the one cell behind which the list changes, so
they are one lemma.
-/

namespace OrionBios.Machine

universe u v w

variable {Cell : Type u} {Node : Type v} {Item : Type w}

/-- Reading from `start` and then through the links finds the nodes in order. -/
def Linked (link : Node → Cell) (cells : Cell → Node) : Cell → List Node → Prop
  | _, [] => True
  | start, node :: rest => cells start = node ∧ Linked link cells (link node) rest

def lastCell (link : Node → Cell) : Cell → List Node → Cell
  | start, [] => start
  | _, node :: rest => lastCell link (link node) rest

/-- The nodes hang from `start`, and the cell behind the last of them holds `last`. -/
def Chain (link : Node → Cell) (cells : Cell → Node) (start : Cell) (nodes : List Node)
    (last : Node) : Prop :=
  Linked link cells start nodes ∧ cells (lastCell link start nodes) = last

/-- The cells that say what hangs from `start`. -/
def visited (link : Node → Cell) (start : Cell) (nodes : List Node) : List Cell :=
  start :: nodes.map link

variable {link : Node → Cell} {cells cells' : Cell → Node} {start : Cell} {last : Node}

@[simp] theorem chain_nil : Chain link cells start [] last ↔ cells start = last := by
  simp [Chain, Linked, lastCell]

@[simp] theorem chain_cons {node : Node} {rest : List Node} :
    Chain link cells start (node :: rest) last ↔
      cells start = node ∧ Chain link cells (link node) rest last := by
  simp [Chain, Linked, lastCell, and_assoc]

theorem lastCell_append (start : Cell) (first second : List Node) :
    lastCell link start (first ++ second) = lastCell link (lastCell link start first) second := by
  induction first generalizing start with
  | nil => rfl
  | cons node rest inductionHypothesis => exact inductionHypothesis (link node)

theorem linked_append {first second : List Node} :
    Linked link cells start (first ++ second) ↔
      Linked link cells start first ∧ Linked link cells (lastCell link start first) second := by
  induction first generalizing start with
  | nil => simp [Linked, lastCell]
  | cons node rest inductionHypothesis =>
      simp only [List.cons_append, Linked, lastCell, inductionHypothesis, and_assoc]

theorem chain_append {first second : List Node} :
    Chain link cells start (first ++ second) last ↔
      Linked link cells start first ∧ Chain link cells (lastCell link start first) second last := by
  unfold Chain
  rw [linked_append, lastCell_append, and_assoc]

theorem lastCell_mem_visited (link : Node → Cell) (start : Cell) (nodes : List Node) :
    lastCell link start nodes ∈ visited link start nodes := by
  induction nodes generalizing start with
  | nil => exact List.mem_singleton.mpr rfl
  | cons node rest inductionHypothesis =>
      exact List.mem_cons_of_mem start (inductionHypothesis (link node))

theorem lastCell_link (node : Node) (nodes : List Node) :
    lastCell link (link node) nodes = link (nodes.getLastD node) := by
  induction nodes generalizing node with
  | nil => rfl
  | cons first rest inductionHypothesis =>
      rw [List.getLastD_cons]
      exact inductionHypothesis first

theorem Linked.congr {nodes : List Node} (linked : Linked link cells start nodes)
    (same : ∀ cell ∈ visited link start nodes, cells' cell = cells cell) :
    Linked link cells' start nodes := by
  induction nodes generalizing start with
  | nil => trivial
  | cons node rest inductionHypothesis =>
      obtain ⟨first, remaining⟩ := linked
      have head : cells' start = cells start := same start List.mem_cons_self
      refine ⟨head.trans first, inductionHypothesis remaining ?_⟩
      intro cell among
      exact same cell (List.mem_cons_of_mem start among)

theorem Chain.congr {nodes : List Node} (chain : Chain link cells start nodes last)
    (same : ∀ cell ∈ visited link start nodes, cells' cell = cells cell) :
    Chain link cells' start nodes last := by
  refine ⟨chain.1.congr same, ?_⟩
  rw [same _ (lastCell_mem_visited link start nodes)]
  exact chain.2

theorem Chain.head {nodes : List Node} (chain : Chain link cells start nodes last) :
    cells start = nodes.headD last := by
  cases nodes with
  | nil => exact chain_nil.mp chain
  | cons node rest => exact (chain_cons.mp chain).1

/-- The same nodes hang from any cell that points to the first of them. -/
theorem Chain.restart {nodes : List Node} {other : Cell}
    (chain : Chain link cells start nodes last) (first : cells' other = cells start)
    (same : ∀ cell ∈ nodes.map link, cells' cell = cells cell) :
    Chain link cells' other nodes last := by
  cases nodes with
  | nil =>
      apply chain_nil.mpr
      exact first.trans (chain_nil.mp chain)
  | cons node rest =>
      obtain ⟨head, remaining⟩ := chain_cons.mp chain
      exact chain_cons.mpr ⟨first.trans head, remaining.congr same⟩

theorem Linked.keep {nodes : List Node} (linked : Linked link cells start nodes)
    (distinct : (visited link start nodes).Nodup)
    (same : ∀ cell ∈ visited link start nodes, cell ≠ lastCell link start nodes →
      cells' cell = cells cell) :
    Linked link cells' start nodes := by
  induction nodes generalizing start with
  | nil => trivial
  | cons node rest inductionHypothesis =>
      obtain ⟨first, remaining⟩ := linked
      obtain ⟨elsewhere, distinct⟩ := List.nodup_cons.mp distinct
      have different : start ≠ lastCell link (link node) rest := by
        intro equal
        exact elsewhere (equal ▸ lastCell_mem_visited link (link node) rest)
      have head : cells' start = cells start := same start List.mem_cons_self different
      refine ⟨head.trans first, inductionHypothesis remaining distinct ?_⟩
      intro cell among
      exact same cell (List.mem_cons_of_mem start among)

/-- The relinking rule: overwriting the cell behind `kept` replaces all that came after it. -/
theorem Chain.relink {kept added : List Node} (linked : Linked link cells start kept)
    (distinct : (visited link start kept).Nodup)
    (same : ∀ cell ∈ visited link start kept, cell ≠ lastCell link start kept →
      cells' cell = cells cell)
    (tail : Chain link cells' (lastCell link start kept) added last) :
    Chain link cells' start (kept ++ added) last := by
  apply chain_append.mpr
  exact ⟨linked.keep distinct same, tail⟩

/-- Following the links from `head` meets the nodes and then `last`. -/
def Path (next : Node → Node) : Node → List Node → Node → Prop
  | head, [], last => head = last
  | head, node :: rest, last => head = node ∧ Path next (next node) rest last

theorem Chain.path {nodes : List Node} (chain : Chain link cells start nodes last) :
    Path (fun node => cells (link node)) (cells start) nodes last := by
  induction nodes generalizing start with
  | nil => exact chain_nil.mp chain
  | cons node rest inductionHypothesis =>
      obtain ⟨first, remaining⟩ := chain_cons.mp chain
      exact ⟨first, inductionHypothesis remaining⟩

theorem Path.congr {next next' : Node → Node} {head : Node} {nodes : List Node}
    (path : Path next head nodes last) (same : ∀ node ∈ nodes, next' node = next node) :
    Path next' head nodes last := by
  induction nodes generalizing head with
  | nil => exact path
  | cons node rest inductionHypothesis =>
      obtain ⟨first, remaining⟩ := path
      refine ⟨first, ?_⟩
      rw [same node List.mem_cons_self]
      apply inductionHypothesis remaining
      intro other among
      exact same other (List.mem_cons_of_mem node among)

/-! ## Walking a list -/

/-- The walk goes past each of the nodes, entering them after `prev`. -/
def Passed (stop : Node → Node → Bool) : Node → List Node → Prop
  | _, [] => True
  | prev, node :: rest => stop prev node = false ∧ Passed stop node rest

theorem passed_const {stop : Node → Bool} {prev : Node} {nodes : List Node} :
    Passed (fun _ node => stop node) prev nodes ↔ ∀ node ∈ nodes, stop node = false := by
  induction nodes generalizing prev with
  | nil => simp [Passed]
  | cons node rest inductionHypothesis => simp [Passed, inductionHypothesis]

section Walk

variable [DecidableEq Node]

/-- The loop `while (ptr) { if (stop) break; prev = ptr; ptr = next }`, for at most `fuel`
nodes. The result is the last value of `prev` and of `ptr`. -/
def walk (next : Node → Node) (stop : Node → Node → Bool) (null : Node) :
    Nat → Node → Node → Option (Node × Node)
  | 0, _, _ => none
  | fuel + 1, prev, ptr =>
      if ptr = null then some (prev, ptr)
      else if stop prev ptr then some (prev, ptr)
      else walk next stop null fuel ptr (next ptr)

theorem walk_spec {stop : Node → Node → Bool} {null : Node} {node : Item → Node}
    {items : List Item} {fuel : Nat} (prev : Node)
    (chain : Chain link cells start (items.map node) null)
    (nonNull : ∀ item ∈ items, node item ≠ null) (enough : items.length < fuel) :
    ∃ passed rest, items = passed ++ rest ∧ Passed stop prev (passed.map node) ∧
      (∀ item ∈ rest.head?, stop ((passed.map node).getLastD prev) (node item) = true) ∧
      walk (fun node => cells (link node)) stop null fuel prev (cells start) =
        some ((passed.map node).getLastD prev, (rest.map node).headD null) := by
  induction items generalizing start fuel prev with
  | nil =>
      obtain ⟨fuel, rfl⟩ := Nat.exists_eq_succ_of_ne_zero (Nat.ne_of_gt enough)
      have ended : cells start = null := chain_nil.mp chain
      refine ⟨[], [], rfl, trivial, by simp, ?_⟩
      simp [walk, ended]
  | cons item rest inductionHypothesis =>
      obtain ⟨fuel, rfl⟩ := Nat.exists_eq_succ_of_ne_zero (Nat.ne_of_gt (Nat.lt_of_le_of_lt
        (Nat.zero_le _) enough))
      obtain ⟨first, remaining⟩ := chain_cons.mp chain
      have real : node item ≠ null := nonNull item List.mem_cons_self
      cases stops : stop prev (node item) with
      | true =>
          refine ⟨[], item :: rest, rfl, trivial, by simpa using stops, ?_⟩
          simp [walk, first, real, stops]
      | false =>
          obtain ⟨passed, left, rfl, past, stopped, walked⟩ :=
            inductionHypothesis (node item) remaining
              (fun other among => nonNull other (List.mem_cons_of_mem item among))
              (Nat.lt_of_succ_lt_succ enough)
          refine ⟨item :: passed, left, rfl, ⟨stops, past⟩, ?_, ?_⟩
          · rw [List.map_cons, List.getLastD_cons]
            exact stopped
          · rw [List.map_cons, List.getLastD_cons, walk, first, if_neg real, stops]
            exact walked

/-- The number of nodes of a list, counted for at most `fuel` nodes. -/
def count (next : Node → Node) (null : Node) : Nat → Node → Option Nat
  | 0, _ => none
  | fuel + 1, ptr =>
      if ptr = null then some 0 else (count next null fuel (next ptr)).map (· + 1)

theorem count_spec {null : Node} {nodes : List Node} {fuel : Nat}
    (chain : Chain link cells start nodes null) (nonNull : null ∉ nodes)
    (enough : nodes.length < fuel) :
    count (fun node => cells (link node)) null fuel (cells start) = some nodes.length := by
  induction nodes generalizing start fuel with
  | nil =>
      obtain ⟨fuel, rfl⟩ := Nat.exists_eq_succ_of_ne_zero (Nat.ne_of_gt enough)
      have ended : cells start = null := chain_nil.mp chain
      simp [count, ended]
  | cons node rest inductionHypothesis =>
      obtain ⟨fuel, rfl⟩ := Nat.exists_eq_succ_of_ne_zero (Nat.ne_of_gt (Nat.lt_of_le_of_lt
        (Nat.zero_le _) enough))
      obtain ⟨first, remaining⟩ := chain_cons.mp chain
      have real : node ≠ null := fun same => nonNull (same ▸ List.mem_cons_self)
      have counted := inductionHypothesis remaining
        (fun among => nonNull (List.mem_cons_of_mem node among)) (Nat.lt_of_succ_lt_succ enough)
      simp [count, first, real, counted]

/-- The nodes of a list, for at most `fuel` of them. -/
def nodesFrom (next : Node → Node) (null : Node) : Nat → Node → List Node
  | 0, _ => []
  | fuel + 1, ptr => if ptr = null then [] else ptr :: nodesFrom next null fuel (next ptr)

theorem nodesFrom_spec {null : Node} {nodes : List Node} {fuel : Nat}
    (chain : Chain link cells start nodes null) (nonNull : null ∉ nodes)
    (enough : nodes.length < fuel) :
    nodesFrom (fun node => cells (link node)) null fuel (cells start) = nodes := by
  induction nodes generalizing start fuel with
  | nil =>
      obtain ⟨fuel, rfl⟩ := Nat.exists_eq_succ_of_ne_zero (Nat.ne_of_gt enough)
      have ended : cells start = null := chain_nil.mp chain
      simp [nodesFrom, ended]
  | cons node rest inductionHypothesis =>
      obtain ⟨fuel, rfl⟩ := Nat.exists_eq_succ_of_ne_zero (Nat.ne_of_gt (Nat.lt_of_le_of_lt
        (Nat.zero_le _) enough))
      obtain ⟨first, remaining⟩ := chain_cons.mp chain
      have real : node ≠ null := fun same => nonNull (same ▸ List.mem_cons_self)
      have later := inductionHypothesis remaining
        (fun among => nonNull (List.mem_cons_of_mem node among)) (Nat.lt_of_succ_lt_succ enough)
      simp [nodesFrom, first, real, later]

end Walk

end OrionBios.Machine
