import Jet3.Format.PageFile
import Jet3.Library.Reader
import Mathlib.Order.Lattice

/-!
# AutoNumber state

A table definition retains the last number allocated for its AutoNumber column. Every insertion
allocates the next number, also where the caller gives one, and the larger of both is retained; the
comparison is unsigned.

* `run` allocates for a list of rows;
* `decode_writeBytes` says that the counter is read back from the root page it was written to, and
  `get_writeBytes` that the rest of the page stays;
* `generated_ne` says that a generated number is none of those before it until the counter wraps.
-/

namespace Jet3

open Outcome

/-- The counter of a table: the last number allocated, as an unsigned one. -/
structure AutoNumberState where
  last : UInt32
  deriving DecidableEq, Repr

namespace AutoNumberState

/-- `AutoNumberState::default`. -/
def initial : AutoNumberState := { last := 0 }

/-- Gives out the next number, or takes an explicit one; the counter is then the larger of the
two. -/
def allocate (state : AutoNumberState) (explicit : Option Int32) : AutoNumberState × Int32 :=
  let allocated := state.last + 1
  let value := explicit.getD allocated.toInt32
  let last := if value.toUInt32 > allocated then value.toUInt32 else allocated
  ({ last }, value)

/-- `OFFSET`: the place of the counter in a table definition. -/
def offset : ℕ := 16

/-- `AutoNumberState::decode`. -/
def decode (header : List UInt8) : Except Error AutoNumberState := do
  refuseIf (header.length < offset + 4) (.arithmetic "locate AutoNumber state")
  return { last := .ofNat (leAt header offset 4) }

/-- `AutoNumberState::write_bytes`. -/
def writeBytes (state : AutoNumberState) (page : Page) : Page :=
  page.write offset (leBytes 4 state.last.toNat)

/-- The state and the numbers after allocating for each row in turn. -/
def run (state : AutoNumberState) : List (Option Int32) → AutoNumberState × List Int32
  | [] => (state, [])
  | explicit :: rest =>
    ((run (state.allocate explicit).1 rest).1,
      (state.allocate explicit).2 :: (run (state.allocate explicit).1 rest).2)

variable {state : AutoNumberState}

/-! ## The counter in the definition -/

/-- The written page is the page with the counter in its place. -/
theorem pageBytesOf_writeBytes (state : AutoNumberState) (page : Page) :
    pageBytesOf (state.writeBytes page) = page.slice 0 offset ++
      (leBytes 4 state.last.toNat ++ page.slice (offset + 4) pageBytes) := by
  have hfront : (state.writeBytes page).slice 0 offset = page.slice 0 offset :=
    Block.slice_write_of_disjoint page (.inl le_rfl)
  have hfield : (state.writeBytes page).slice offset (offset + 4) = leBytes 4 state.last.toNat :=
    Block.slice_write_self page rfl (by decide)
  have hback : (state.writeBytes page).slice (offset + 4) pageBytes =
      page.slice (offset + 4) pageBytes := Block.slice_write_of_disjoint page (.inr le_rfl)
  rw [← hfront, ← hfield, ← hback, Block.slice_append_slice _ (by decide) (by decide),
    Block.slice_append_slice _ (by decide) (by decide)]
  rfl

/-- What is written to a root page is read back from it. -/
theorem decode_writeBytes (state : AutoNumberState) (page : Page) :
    decode (pageBytesOf (state.writeBytes page)) = .ok state := by
  have hlast : leAt (pageBytesOf (state.writeBytes page)) offset 4 = state.last.toNat := by
    have hfront : (page.slice 0 offset).length = offset := Block.length_slice page 0 offset
    rw [pageBytesOf_writeBytes, leAt_append hfront (length_leBytes _ _)]
    exact leValue_leBytes_of_lt state.last.toNat_lt
  rw [decode, hlast, length_pageBytesOf, UInt32.ofNat_toNat]
  rfl

/-- Nothing else of the page changes. -/
theorem get_writeBytes (state : AutoNumberState) (page : Page) {i : ℕ}
    (h : i < offset ∨ offset + 4 ≤ i) : (state.writeBytes page).get i = page.get i :=
  Block.get_write_of_notMem h

/-! ## Numbers -/

/-- A generated number is one above the counter. -/
theorem toUInt32_generated (state : AutoNumberState) :
    (state.allocate none).2.toUInt32 = state.last + 1 := rfl

/-- What is retained is the larger of the number and the one that would have been generated. -/
theorem toNat_last_allocate (state : AutoNumberState) (explicit : Option Int32) :
    (state.allocate explicit).1.last.toNat =
      max (state.allocate explicit).2.toUInt32.toNat (state.last + 1).toNat := by
  simp only [allocate]
  split
  next h => exact (Nat.max_eq_left (Nat.le_of_lt (UInt32.lt_iff_toNat_lt.mp h))).symm
  next h =>
    exact (Nat.max_eq_right
      (Nat.le_of_not_lt fun hlt => h (UInt32.lt_iff_toNat_lt.mpr hlt))).symm

/-- The counter goes up by one, unless it is at its end. -/
theorem toNat_add_one (hwrap : state.last ≠ 0xffffffff) :
    (state.last + 1).toNat = state.last.toNat + 1 := by
  have hlt := state.last.toNat_lt
  have hne : state.last.toNat ≠ 0xffffffff := fun h => hwrap (UInt32.toNat_inj.mp h)
  have hone : (1 : UInt32).toNat = 1 := rfl
  rw [UInt32.toNat_add, hone]
  omega

/-- No row of the run meets the largest number. -/
def NeverWraps (state : AutoNumberState) : List (Option Int32) → Prop
  | [] => True
  | explicit :: rest => state.last ≠ 0xffffffff ∧ NeverWraps (state.allocate explicit).1 rest

/-- Behind a run the state is at least every number of the run, and larger than before it. -/
theorem le_last_of_run {rows : List (Option Int32)} (hwrap : state.NeverWraps rows) :
    state.last.toNat + rows.length ≤ (state.run rows).1.last.toNat ∧
      ∀ value ∈ (state.run rows).2, value.toUInt32.toNat ≤ (state.run rows).1.last.toNat := by
  induction rows generalizing state with
  | nil => exact ⟨le_rfl, by simp [run]⟩
  | cons explicit rest ih =>
    obtain ⟨hne, hrest⟩ := hwrap
    obtain ⟨hgrows, hvalues⟩ := ih hrest
    have hlast := toNat_last_allocate state explicit
    have hnext := toNat_add_one hne
    have hlarger := le_max_right (state.allocate explicit).2.toUInt32.toNat (state.last + 1).toNat
    have hvalue := le_max_left (state.allocate explicit).2.toUInt32.toNat (state.last + 1).toNat
    simp only [run, List.length_cons]
    refine ⟨by omega, List.forall_mem_cons.mpr ⟨by omega, hvalues⟩⟩

/-- A run over more rows goes on where the first ones end. -/
theorem run_append (rows more : List (Option Int32)) :
    state.run (rows ++ more) =
      (((state.run rows).1.run more).1, (state.run rows).2 ++ ((state.run rows).1.run more).2) := by
  induction rows generalizing state with
  | nil => rfl
  | cons first rest ih =>
    rw [List.cons_append, run, ih, run]
    rfl

theorem length_run (rows : List (Option Int32)) : (state.run rows).2.length = rows.length := by
  induction rows generalizing state with
  | nil => rfl
  | cons first rest ih => rw [run, List.length_cons, List.length_cons, ih]

/-- A run does not wrap where neither of its parts does. -/
theorem neverWraps_append {rows more : List (Option Int32)} :
    state.NeverWraps (rows ++ more) ↔
      state.NeverWraps rows ∧ (state.run rows).1.NeverWraps more := by
  induction rows generalizing state with
  | nil => simp [NeverWraps, run]
  | cons first rest ih => rw [List.cons_append, NeverWraps, NeverWraps, ih, run, and_assoc]

/-- A generated number is none of those before it. -/
theorem generated_notMem {rows : List (Option Int32)} (hrows : state.NeverWraps rows)
    (hlast : (state.run rows).1.last ≠ 0xffffffff) :
    ((state.run rows).1.allocate none).2 ∉ (state.run rows).2 := by
  intro hmem
  have hle := (le_last_of_run hrows).2 _ hmem
  rw [toUInt32_generated, toNat_add_one hlast] at hle
  omega

/-- In a run that does not wrap, the number generated for a row differs from that of every row
before it, given or generated. -/
theorem generated_ne {rows : List (Option Int32)} (hwrap : state.NeverWraps rows) {i j : ℕ}
    (hij : i < j) (hj : rows[j]? = some none) :
    (state.run rows).2[i]? ≠ (state.run rows).2[j]? := by
  have hlt := (List.getElem?_eq_some_iff.mp hj).1
  have hsplit : rows = rows.take j ++ none :: rows.drop (j + 1) := by
    rw [← (List.getElem?_eq_some_iff.mp hj).2, ← List.drop_eq_getElem_cons hlt,
      List.take_append_drop]
  have htake : (state.run (rows.take j)).2.length = j := by
    rw [length_run, List.length_take]
    omega
  rw [hsplit, neverWraps_append, NeverWraps] at hwrap
  obtain ⟨hbefore, hlast, -⟩ := hwrap
  have hnew := generated_notMem hbefore hlast
  rw [hsplit, run_append, List.getElem?_append_left (by omega),
    List.getElem?_append_right (by omega), htake, Nat.sub_self]
  intro heq
  exact hnew (List.mem_of_getElem? heq)

/-- The number behind a given 7 is another one. -/
theorem generated_ne_seven :
    (initial.run [none, some 7, none]).2[1]? ≠ (initial.run [none, some 7, none]).2[2]? := by
  have hwrap : initial.NeverWraps [none, some 7, none] :=
    ⟨by decide, by decide, by decide, trivial⟩
  exact generated_ne hwrap (by decide) rfl

end AutoNumberState

end Jet3
