import OrionBios.Sorting.Segments
import OrionBios.Transition.Runs

/-!
# `qsort`

The array is partitioned in place, and what is to be sorted later is kept on a stack of
parameters. Only when that is full does the function call itself.

Addresses are counted in elements. `swap` and `vecswap` of the source exchange the bytes of
elements that do not overlap.
-/

namespace OrionBios.Sorting

universe u

variable {Element : Type u}

abbrev Cmp (Element : Type u) := Element → Element → Int

section Comparison

variable (cmp : Cmp Element)

def med3 (cells : Cells Element) (a b c : Nat) : Nat :=
  if cmp (cells a) (cells b) < 0 then
    if cmp (cells b) (cells c) < 0 then b else if cmp (cells a) (cells c) < 0 then c else a
  else
    if cmp (cells b) (cells c) > 0 then b else if cmp (cells a) (cells c) < 0 then a else c

/-! ## Short arrays -/

/-- The inner loop of the insertion sort, with `pl` at `a + k`. -/
def sink (a : Nat) : Nat → Cells Element → Cells Element
  | 0, cells => cells
  | k + 1, cells =>
    if cmp (cells (a + k)) (cells (a + k + 1)) > 0 then
      sink a k (swap (a + k + 1) (a + k) cells)
    else cells

def insertionSort (part : Segment) (cells : Cells Element) : Cells Element :=
  (List.range' 1 (part.length - 1)).foldl (fun cells m => sink cmp part.start m cells) cells

/-! ## The pivot -/

def pivotOf (part : Segment) (cells : Cells Element) : Nat :=
  let pm := part.start + part.length / 2
  if part.length > 7 then
    let pl := part.start
    let pn := part.start + (part.length - 1)
    if part.length > 40 then
      let d := part.length / 8
      let pl := med3 cmp cells pl (pl + d) (pl + 2 * d)
      let pm := med3 cmp cells (pm - d) pm (pm + d)
      let pn := med3 cmp cells (pn - 2 * d) (pn - d) pn
      med3 cmp cells pl pm pn
    else med3 cmp cells pl pm pn
  else pm

/-! ## The partition -/

structure Scan (Element : Type u) where
  cells : Cells Element
  pa : Nat
  pb : Nat
  pc : Nat
  pd : Nat
  swapCnt : Nat

/-- Left to right, up to the first element above the pivot. -/
def scanUp (a : Nat) : Nat → Scan Element → Scan Element
  | 0, s => s
  | rounds + 1, s =>
    if s.pb ≤ s.pc then
      let cmpResult := cmp (s.cells s.pb) (s.cells a)
      if cmpResult ≤ 0 then
        if cmpResult = 0 then
          scanUp a rounds { s with
            cells := swap s.pa s.pb s.cells
            pa := s.pa + 1
            pb := s.pb + 1
            swapCnt := 1 }
        else scanUp a rounds { s with pb := s.pb + 1 }
      else s
    else s

/-- Right to left, up to the first element below the pivot. -/
def scanDown (a : Nat) : Nat → Scan Element → Scan Element
  | 0, s => s
  | rounds + 1, s =>
    if s.pb ≤ s.pc then
      let cmpResult := cmp (s.cells s.pc) (s.cells a)
      if cmpResult ≥ 0 then
        if cmpResult = 0 then
          scanDown a rounds { s with
            cells := swap s.pc s.pd s.cells
            pc := s.pc - 1
            pd := s.pd - 1
            swapCnt := 1 }
        else scanDown a rounds { s with pc := s.pc - 1 }
      else s
    else s

def scanLoop (a : Nat) : Nat → Scan Element → Scan Element
  | 0, s => s
  | rounds + 1, s =>
    let s := scanUp cmp a (s.pc + 1 - s.pb) s
    let s := scanDown cmp a (s.pc + 1 - s.pb) s
    if s.pb > s.pc then s
    else
      scanLoop a rounds { s with
        cells := swap s.pb s.pc s.cells
        swapCnt := 1
        pb := s.pb + 1
        pc := s.pc - 1 }

def partition (part : Segment) (cells : Cells Element) : Scan Element :=
  scanLoop cmp part.start part.length
    { cells := swap part.start (pivotOf cmp part cells) cells
      pa := part.start + 1
      pb := part.start + 1
      pc := part.start + (part.length - 1)
      pd := part.start + (part.length - 1)
      swapCnt := 0 }

end Comparison

def vecswap (a b : Nat) : Nat → Cells Element → Cells Element
  | 0, cells => cells
  | n + 1, cells => vecswap (a + 1) (b + 1) n (swap a b cells)

/-- The elements equal to the pivot come from the ends to the middle. -/
def gather (part : Segment) (s : Scan Element) : Cells Element :=
  let pn := part.start + part.length
  let r := min (s.pa - part.start) (s.pb - s.pa)
  let cells := vecswap part.start (s.pb - r) r s.cells
  let r := min (s.pd - s.pc) (pn - s.pd - 1)
  vecswap s.pb (pn - r) r cells

def Scan.left (part : Segment) (s : Scan Element) : Segment := ⟨part.start, s.pb - s.pa⟩

def Scan.right (part : Segment) (s : Scan Element) : Segment :=
  ⟨part.start + part.length - (s.pd - s.pc), s.pd - s.pc⟩

def Scan.smaller (part : Segment) (s : Scan Element) : Segment :=
  if (s.right part).length > (s.left part).length then s.left part else s.right part

def Scan.larger (part : Segment) (s : Scan Element) : Segment :=
  if (s.right part).length > (s.left part).length then s.right part else s.left part

/-! ## The function -/

def PARAMETER_STACK_LEVELS : Nat := 8

/-- The labels of the function, and its test for the larger part. -/
inductive Point where
  | loop (part : Segment)
  | iterate (part : Segment)
  | pop
  deriving DecidableEq, Repr

/-- What a call in the middle of the function waits with. -/
structure Caller where
  larger : Segment
  parameterStack : List Segment
  deriving DecidableEq, Repr

structure Activation (Element : Type u) where
  cells : Cells Element
  point : Point
  parameterStack : List Segment
  callers : List Caller

namespace Activation

variable (cmp : Cmp Element) (s : Activation Element)

/-- The smaller part is next. The larger one waits on the stack, or, when that is full, in the
caller. -/
def descend (smaller larger : Segment) : Activation Element :=
  if s.parameterStack.length < PARAMETER_STACK_LEVELS then
    { s with parameterStack := larger :: s.parameterStack, point := .loop smaller }
  else
    { s with
      callers := ⟨larger, s.parameterStack⟩ :: s.callers
      parameterStack := []
      point := .loop smaller }

def stepLoop (part : Segment) : Activation Element :=
  if part.length < 7 then
    { s with cells := insertionSort cmp part s.cells, point := .pop }
  else
    let scan := partition cmp part s.cells
    if scan.swapCnt = 0 then
      { s with cells := insertionSort cmp part scan.cells, point := .pop }
    else
      let gathered := { s with cells := gather part scan }
      if (scan.smaller part).length > 1 then
        gathered.descend (scan.smaller part) (scan.larger part)
      else { gathered with point := .iterate (scan.larger part) }

def step : Option (Activation Element) :=
  match s.point with
  | .loop part => some (s.stepLoop cmp part)
  | .iterate part =>
    if part.length > 1 then some { s with point := .loop part } else some { s with point := .pop }
  | .pop =>
    match s.parameterStack, s.callers with
    | part :: rest, _ => some { s with parameterStack := rest, point := .loop part }
    | [], caller :: callers =>
      some { s with
        parameterStack := caller.parameterStack
        callers := callers
        point := .iterate caller.larger }
    | [], [] => none

end Activation

def activationOf (part : Segment) (cells : Cells Element) : Activation Element where
  cells := cells
  point := .loop part
  parameterStack := []
  callers := []

/-- `qsort` of `n` elements from `a` on, if it returns within the given rounds. -/
def qsort (cmp : Cmp Element) (a n rounds : Nat) (cells : Cells Element) : Option (Cells Element) :=
  (Transition.iterate (Activation.step cmp) rounds (activationOf ⟨a, n⟩ cells)).map Activation.cells

end OrionBios.Sorting
