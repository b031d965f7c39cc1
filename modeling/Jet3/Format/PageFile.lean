import Jet3.Format.PageKind

/-!
# Files of whole pages

A database file is a sequence of complete pages; its reader refuses a page number beyond the last
page. `fileBytes` are the bytes of the file.
-/

namespace Jet3

/-- A file whose length is a whole number of pages. -/
abbrev PageFile : Type := List Page

/-- A failure while reading and classifying a page. -/
inductive DatabasePageError where
  | read (source : Error)
  deriving DecidableEq, Repr

/-- The bytes of one page. -/
def pageBytesOf (page : Page) : List UInt8 :=
  page.slice 0 pageBytes

namespace PageFile

/-- `geometry().page_count()`. -/
def pageCount (file : PageFile) : ℕ :=
  file.length

/-- `read_raw_page`. -/
def readRawPage (file : PageFile) (page : PageNumber) : Except Error Page :=
  match file[page]? with
  | some raw => .ok raw
  | none => .error (.pageOutOfBounds page file.pageCount)

/-- `read_classified_page`. -/
def readClassifiedPage (file : PageFile) (page : PageNumber) :
    Except DatabasePageError ClassifiedPage := do
  let raw ← (file.readRawPage page).mapError .read
  return { number := page, kind := classifyPage page raw, raw }

/-- The bytes of a file. -/
def bytes (file : PageFile) : List UInt8 :=
  file.flatMap pageBytesOf

/-- A page is read where the file has it. -/
@[simp]
theorem readRawPage_ok_iff {file : PageFile} {page : PageNumber} {raw : Page} :
    file.readRawPage page = .ok raw ↔ file[page]? = some raw := by
  unfold readRawPage
  split <;> simp [*]

/-- A page is read with the kind its first byte says. -/
@[simp]
theorem readClassifiedPage_ok_iff {file : PageFile} {page : PageNumber} {c : ClassifiedPage} :
    file.readClassifiedPage page = .ok c ↔
      ∃ raw, file[page]? = some raw ∧ c =
        { number := page, kind := classifyPage page raw, raw } := by
  simp only [readClassifiedPage, Outcome.bind_ok_iff, Outcome.mapError_ok_iff, readRawPage_ok_iff,
    Outcome.pure_ok_iff]
  constructor
  · rintro ⟨raw, hraw, rfl⟩
    exact ⟨raw, hraw, rfl⟩
  · rintro ⟨raw, hraw, rfl⟩
    exact ⟨raw, hraw, rfl⟩

end PageFile

/-! ## Bytes of files -/

@[simp]
theorem length_pageBytesOf (page : Page) : (pageBytesOf page).length = pageBytes := by
  simp [pageBytesOf]

/-- A page is determined by its bytes. -/
theorem pageBytesOf_injective : Function.Injective pageBytesOf := by
  intro a b h
  apply Block.ext_get
  intro i hi
  have hget := congrArg (fun bytes : List UInt8 => bytes.getD i 0) h
  simp only [pageBytesOf] at hget
  rw [Block.getD_slice a (by omega), Block.getD_slice b (by omega)] at hget
  simpa using hget

instance : DecidableEq Page := fun a b =>
  decidable_of_iff (pageBytesOf a = pageBytesOf b) pageBytesOf_injective.eq_iff

namespace PageFile

@[simp]
theorem length_bytes (file : PageFile) : file.bytes.length = pageBytes * file.pageCount := by
  induction file with
  | nil => rfl
  | cons page file ih =>
    have hcons : bytes (page :: file) = pageBytesOf page ++ bytes file := rfl
    rw [hcons, List.length_append, length_pageBytesOf, ih, pageCount, pageCount, List.length_cons]
    ring

/-- The bytes of page `n` of a file start at offset `2048 * n`. -/
theorem take_drop_bytes {file : PageFile} {n : ℕ} {page : Page} (h : file[n]? = some page) :
    (file.bytes.drop (pageBytes * n)).take pageBytes = pageBytesOf page := by
  induction file generalizing n with
  | nil => simp at h
  | cons first file ih =>
    have hcons : bytes (first :: file) = pageBytesOf first ++ bytes file := rfl
    cases n with
    | zero =>
      simp only [List.getElem?_cons_zero, Option.some.injEq] at h
      subst h
      rw [hcons, Nat.mul_zero, List.drop_zero, List.take_left' (length_pageBytesOf first)]
    | succ n =>
      rw [List.getElem?_cons_succ] at h
      have hoff : pageBytes * (n + 1) = pageBytes + pageBytes * n := by ring
      rw [hcons, hoff, ← List.drop_drop, List.drop_left' (length_pageBytesOf first), ih h]

/-- A byte string of whole pages whose pages are those of a file is the bytes of that file. -/
theorem eq_bytes_of_take_drop {file : PageFile} {data : List UInt8}
    (hlen : data.length = pageBytes * file.pageCount)
    (h : ∀ n page, file[n]? = some page →
      (data.drop (pageBytes * n)).take pageBytes = pageBytesOf page) : data = file.bytes := by
  induction file generalizing data with
  | nil =>
    simp only [pageCount, List.length_nil, Nat.mul_zero, List.length_eq_zero_iff] at hlen
    exact hlen
  | cons first file ih =>
    have hcons : bytes (first :: file) = pageBytesOf first ++ bytes file := rfl
    have hfirst : data.take pageBytes = pageBytesOf first := by
      have := h 0 first rfl
      rwa [Nat.mul_zero, List.drop_zero] at this
    have hrest : data.drop pageBytes = bytes file := by
      apply ih
      · simp only [pageCount, List.length_cons, List.length_drop] at hlen ⊢
        rw [hlen, Nat.mul_succ, Nat.add_sub_cancel]
      · intro n page hpage
        have hoff : pageBytes + pageBytes * n = pageBytes * (n + 1) := by ring
        rw [List.drop_drop, hoff]
        exact h (n + 1) page (by rwa [List.getElem?_cons_succ])
    rw [hcons, ← hfirst, ← hrest, List.take_append_drop]

end PageFile

end Jet3
