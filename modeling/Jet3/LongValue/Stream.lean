import Jet3.LongValue.Reader
import Mathlib.Data.List.Nodup
import Mathlib.Data.List.Perm.Subperm

/-!
# Streaming external long values

What the rows of an external long value have to be for its stream to return them.

* `Chain` says that rows of payload pages link to each other and which payload each carries;
* `drain_new_iff` states exactly which chains are streamed, on any file;
* `drain_ne_none` bounds the calls a stream takes, whatever the file holds.
-/

namespace Jet3

open Outcome

namespace LongValue

/-- A row of a payload page. -/
def RowAt (file : PageFile) (locator : RowLocator) (row : List UInt8) : Prop :=
  ∃ page range, file[locator.page]? = some page ∧ classifyPage locator.page page = .data ∧
    validateLvalRow locator page = .ok range ∧ row = page.slice range.start range.stop

/-- Rows that follow each other, with the payload in each. What follows a link is not empty. -/
inductive Chain (file : PageFile) (storage : ExternalLongValueStorage) :
    List (RowLocator × List UInt8) → Prop where
  | last {locator : RowLocator} {row payload : List UInt8} (hrow : RowAt file locator row)
      (hsplit : LongValueCursor.splitRow storage locator row = .ok (payload, none)) :
      Chain file storage [(locator, payload)]
  | link {locator next : RowLocator} {row payload fragment : List UInt8}
      {rest : List (RowLocator × List UInt8)} (hrow : RowAt file locator row)
      (hsplit : LongValueCursor.splitRow storage locator row = .ok (payload, some next))
      (hmore : ((next, fragment) :: rest).flatMap Prod.snd ≠ [])
      (hrest : Chain file storage ((next, fragment) :: rest)) :
      Chain file storage ((locator, payload) :: (next, fragment) :: rest)

/-- Payload bytes that a stream of this kind interprets. -/
def Readable (kind : LongValueKind) (codePage : TextCodePage) (payload : List UInt8) : Prop :=
  kind = .memo → Mapped codePage payload

end LongValue

open LongValue

namespace LongValueKind

variable {kind : LongValueKind} {codePage : TextCodePage} {payload : List UInt8}

/-- A payload that is read as text keeps its bytes. -/
theorem rawBytes_of_interpret {value : LongValueBytes}
    (h : kind.interpret codePage payload = .ok value) : value.rawBytes = payload := by
  cases kind with
  | memo =>
    simp only [interpret, bind_ok_iff, mapError_ok_iff, pure_ok_iff] at h
    obtain ⟨text, htext, rfl⟩ := h
    exact raw_of_decodeText htext
  | ole =>
    cases h
    rfl

/-- Texts have to be mapped by the code page, binaries need nothing. -/
theorem exists_interpret_iff :
    (∃ value, kind.interpret codePage payload = .ok value) ↔ Readable kind codePage payload := by
  cases kind with
  | memo =>
    simp only [interpret, bind_ok_iff, mapError_ok_iff, pure_ok_iff, Readable, forall_const,
      ← exists_decodeText_iff]
    constructor
    · rintro ⟨_, text, h, -⟩
      exact ⟨text, h⟩
    · rintro ⟨text, h⟩
      exact ⟨_, text, h, rfl⟩
  | ole => exact ⟨fun _ h => (by cases h), fun _ => ⟨_, rfl⟩⟩

end LongValueKind

/-- Where a chunk was stored, and the payload in it. -/
def LongValueChunk.entry (chunk : LongValueChunk) : RowLocator × List UInt8 :=
  (chunk.locator, chunk.value.rawBytes)

namespace LongValueCursor

variable {file : PageFile} {cursor : LongValueCursor}

/-- The cursor behind a row. -/
def advance (cursor : LongValueCursor) (locator : RowLocator) (payload : List UInt8)
    (following : Option RowLocator) : LongValueCursor :=
  { cursor with
    next := following
    visited := locator :: cursor.visited
    emitted := cursor.emitted + payload.length }

/-- What one row has to be for the stream to return it. -/
structure Reads (file : PageFile) (cursor : LongValueCursor) (locator : RowLocator)
    (payload : List UInt8) (following : Option RowLocator) (chunk : LongValueChunk) : Prop where
  row : RowAt file locator chunk.rawRow
  split : splitRow cursor.reference.storage locator chunk.rawRow = .ok (payload, following)
  length_le : cursor.emitted + payload.length ≤ cursor.reference.length
  last : following = none → cursor.emitted + payload.length = cursor.reference.length
  more : following ≠ none → cursor.emitted + payload.length ≠ cursor.reference.length
  value : cursor.reference.kind.interpret cursor.reference.codePage payload = .ok chunk.value
  locator_eq : chunk.locator = locator

/-- A fragment that is read, and the cursor behind it. -/
theorem readRow_ok_iff {locator : RowLocator} {chunk : LongValueChunk} {next : LongValueCursor} :
    readRow file cursor locator = .ok (chunk, next) ↔
      ∃ payload following, Reads file cursor locator payload following chunk ∧
        next = cursor.advance locator payload following := by
  simp only [readRow, bind_ok_iff, exists_unit, refuseIf_ok_iff, mapError_ok_iff,
    PageFile.readClassifiedPage_ok_iff, Prod.exists, pure_ok_iff, Prod.mk.injEq, not_not, not_or,
    not_lt, not_and, ne_eq, gt_iff_lt]
  constructor
  · rintro ⟨_, ⟨page, hpage, rfl⟩, hkind, range, hrange, payload, following, hsplit, ⟨hle, hlast⟩,
      hmore, value, hvalue, rfl, rfl⟩
    exact ⟨payload, following,
      { row := ⟨page, range, hpage, hkind, hrange, rfl⟩, split := hsplit, length_le := hle
        last := hlast, more := hmore, value := hvalue, locator_eq := rfl }, rfl⟩
  · rintro ⟨payload, following, h, rfl⟩
    obtain ⟨page, range, hpage, hkind, hrange, hrow⟩ := h.row
    have hsplit := h.split
    rw [hrow] at hsplit
    refine ⟨_, ⟨page, hpage, rfl⟩, hkind, range, hrange, payload, following, hsplit,
      ⟨h.length_le, h.last⟩, h.more, chunk.value, h.value, ?_, rfl⟩
    obtain ⟨_, _, _⟩ := chunk
    cases h.locator_eq
    cases hrow
    rfl

/-- A call that returns a chunk reads the row the cursor is at. -/
theorem nextChunk_some_iff (hactive : cursor.failed = false) {chunk : LongValueChunk}
    {next : LongValueCursor} :
    nextChunk file cursor = (.ok (some chunk), next) ↔
      ∃ locator payload following, cursor.next = some locator ∧
        locator ≠ cursor.reference.source ∧ locator ∉ cursor.visited ∧
        Reads file cursor locator payload following chunk ∧
        next = cursor.advance locator payload following := by
  have hinner : nextChunk file cursor = (.ok (some chunk), next) ↔
      nextChunkInner file cursor = .ok (some (chunk, next)) := by
    rw [nextChunk, hactive, if_neg Bool.false_ne_true]
    split <;> simp_all
  rw [hinner, nextChunkInner]
  cases hnext : cursor.next with
  | none => simp
  | some locator =>
    simp only [bind_ok_iff, exists_unit, refuseIf_ok_iff, pure_ok_iff, Option.some.injEq,
      exists_eq_right, readRow_ok_iff]
    constructor
    · rintro ⟨hsource, hvisited, payload, following, hreads, rfl⟩
      exact ⟨locator, payload, following, rfl, hsource, hvisited, hreads, rfl⟩
    · rintro ⟨_, payload, following, rfl, hsource, hvisited, hreads, rfl⟩
      exact ⟨hsource, hvisited, payload, following, hreads, rfl⟩

/-- A call that returns nothing is made at the end of the chain. -/
theorem nextChunk_none (hactive : cursor.failed = false) {next : LongValueCursor}
    (h : nextChunk file cursor = (.ok none, next)) : cursor.next = none := by
  rw [nextChunk, hactive, if_neg Bool.false_ne_true, nextChunkInner] at h
  cases hnext : cursor.next with
  | none => rfl
  | some locator =>
    rw [hnext] at h
    split at h
    next => cases h
    next hinner =>
      simp only [bind_ok_iff, pure_ok_iff, reduceCtorEq, and_false, exists_false] at hinner
    next => cases h

/-- A cursor without a next fragment has ended. -/
theorem drain_none (hactive : cursor.failed = false) (hnext : cursor.next = none) (fuel : ℕ) :
    drain file (fuel + 1) cursor = .ok (some []) := by
  rw [drain, nextChunk, hactive, if_neg Bool.false_ne_true, nextChunkInner, hnext]

/-- The stream of a chunk and of those behind it. -/
theorem drain_succ {fuel : ℕ} {chunk : LongValueChunk} {next : LongValueCursor}
    {result : Option (List LongValueChunk)}
    (h : nextChunk file cursor = (.ok (some chunk), next)) :
    drain file (fuel + 1) cursor = .ok result ↔
      ∃ rest, drain file fuel next = .ok rest ∧ result = rest.map (chunk :: ·) := by
  rw [drain, h]
  simp only [bind_ok_iff, pure_ok_iff, eq_comm (a := result)]

/-- A stream that has not failed either ends, or returns a chunk first. -/
theorem drain_cases (hactive : cursor.failed = false) {fuel : ℕ}
    {result : Option (List LongValueChunk)} (h : drain file (fuel + 1) cursor = .ok result) :
    (cursor.next = none ∧ result = some []) ∨
      ∃ chunk next rest, nextChunk file cursor = (.ok (some chunk), next) ∧
        drain file fuel next = .ok rest ∧ result = rest.map (chunk :: ·) := by
  rcases hcall : nextChunk file cursor with ⟨outcome, next⟩
  rcases outcome with e | _ | chunk
  · rw [drain, hcall] at h
    cases h
  · rw [drain, hcall] at h
    cases h
    exact .inl ⟨nextChunk_none hactive hcall, rfl⟩
  · obtain ⟨rest, hrest, hresult⟩ := (drain_succ hcall).mp h
    exact .inr ⟨chunk, next, rest, rfl, hrest, hresult⟩

/-! ## What is streamed -/

/-- The rows a cursor at `locator` streams: a chain from there that meets nothing visited before and
makes up the declared length. -/
structure Streams (file : PageFile) (cursor : LongValueCursor) (locator : RowLocator)
    (entries : List (RowLocator × List UInt8)) : Prop where
  chain : Chain file cursor.reference.storage entries
  first : entries.head?.map Prod.fst = some locator
  distinct : (entries.map Prod.fst).Nodup
  fresh : ∀ entry ∈ entries, entry.1 ∉ cursor.visited
  notSource : ∀ entry ∈ entries, entry.1 ≠ cursor.reference.source
  length_eq : cursor.emitted + (entries.flatMap Prod.snd).length = cursor.reference.length
  readable : ∀ entry ∈ entries,
    Readable cursor.reference.kind cursor.reference.codePage entry.2

/-- The chunk of a fragment. -/
theorem Reads.entry {locator : RowLocator} {payload : List UInt8} {following : Option RowLocator}
    {chunk : LongValueChunk} (h : Reads file cursor locator payload following chunk) :
    chunk.entry = (locator, payload) := by
  rw [LongValueChunk.entry, h.locator_eq, LongValueKind.rawBytes_of_interpret h.value]

/-- A fragment that was read can be interpreted. -/
theorem Reads.readable {locator : RowLocator} {payload : List UInt8}
    {following : Option RowLocator} {chunk : LongValueChunk}
    (h : Reads file cursor locator payload following chunk) :
    Readable cursor.reference.kind cursor.reference.codePage payload :=
  LongValueKind.exists_interpret_iff.mp ⟨_, h.value⟩

/-- What a stream returns is a chain of the file. -/
theorem streams_of_drain {fuel : ℕ} (hactive : cursor.failed = false) {chunks : List LongValueChunk}
    {locator : RowLocator} (hnext : cursor.next = some locator)
    (h : drain file fuel cursor = .ok (some chunks)) :
    Streams file cursor locator (chunks.map LongValueChunk.entry) ∧ chunks.length < fuel := by
  induction fuel generalizing cursor chunks locator with
  | zero => cases h
  | succ fuel ih =>
    rcases drain_cases hactive h with ⟨hnone, -⟩ | ⟨chunk, next, rest, hcall, hrest, hchunks⟩
    · rw [hnone] at hnext
      cases hnext
    obtain ⟨_, payload, following, hlocator, hsource, hvisited, hreads, rfl⟩ :=
      (nextChunk_some_iff hactive).mp hcall
    rw [hnext, Option.some.injEq] at hlocator
    subst hlocator
    obtain ⟨rest, rfl⟩ : ∃ chunks, rest = some chunks := by
      cases rest with
      | none => cases hchunks
      | some rest => exact ⟨rest, rfl⟩
    obtain rfl : chunks = chunk :: rest := by simpa using hchunks
    cases following with
    | none =>
      -- the row ends the chain
      have hend : rest = [] := by
        cases fuel with
        | zero => cases hrest
        | succ fuel =>
          rw [@drain_none file (cursor.advance locator payload none) hactive rfl fuel,
            Except.ok.injEq, Option.some.injEq] at hrest
          exact hrest.symm
      subst hend
      have hpositive : 0 < fuel := by
        rcases Nat.eq_zero_or_pos fuel with rfl | hpos
        · cases hrest
        · exact hpos
      refine ⟨?_, by simpa using hpositive⟩
      rw [List.map_singleton, hreads.entry]
      exact
        { chain := .last hreads.row hreads.split
          first := rfl
          distinct := by simp
          fresh := by simpa using hvisited
          notSource := by simpa using hsource
          length_eq := by simpa using hreads.last rfl
          readable := by simpa using hreads.readable }
    | some next =>
      obtain ⟨hstreams, hfuel⟩ :=
        @ih (cursor.advance locator payload (some next)) hactive rest next rfl hrest
      refine ⟨?_, by simpa using hfuel⟩
      have hlength : cursor.emitted + payload.length +
          ((rest.map LongValueChunk.entry).flatMap Prod.snd).length = cursor.reference.length :=
        hstreams.length_eq
      have hfresh : ∀ entry ∈ rest.map LongValueChunk.entry, entry.1 ∉ locator :: cursor.visited :=
        hstreams.fresh
      rw [List.map_cons, hreads.entry]
      exact
        { chain := by
            have hchain := hstreams.chain
            have hfirst := hstreams.first
            rcases hentries : rest.map LongValueChunk.entry with _ | ⟨⟨after, fragment⟩, others⟩
            · rw [hentries] at hfirst
              cases hfirst
            rw [hentries] at hchain hfirst hlength
            simp only [List.head?_cons, Option.map_some, Option.some.injEq] at hfirst
            subst hfirst
            refine .link hreads.row hreads.split (fun hempty => ?_) hchain
            -- a link behind the declared length is refused
            rw [hempty] at hlength
            exact hreads.more (by simp) (by simpa using hlength)
          first := rfl
          distinct := by
            rw [List.map_cons, List.nodup_cons]
            refine ⟨fun hmem => ?_, hstreams.distinct⟩
            obtain ⟨entry, hentry, heq⟩ := List.mem_map.mp hmem
            exact hfresh entry hentry (heq ▸ List.mem_cons_self)
          fresh := by
            refine List.forall_mem_cons.mpr ⟨hvisited, fun entry hentry hmem => ?_⟩
            exact hfresh entry hentry (List.mem_cons_of_mem _ hmem)
          notSource := List.forall_mem_cons.mpr ⟨hsource, hstreams.notSource⟩
          length_eq := by
            rw [List.flatMap_cons, List.length_append, ← Nat.add_assoc]
            exact hlength
          readable := List.forall_mem_cons.mpr ⟨hreads.readable, hstreams.readable⟩ }

/-- A chain of the file is streamed. -/
theorem drain_of_streams {entries : List (RowLocator × List UInt8)} {fuel : ℕ}
    (hactive : cursor.failed = false) {locator : RowLocator} (hnext : cursor.next = some locator)
    (h : Streams file cursor locator entries) (hfuel : entries.length < fuel) :
    ∃ chunks, drain file fuel cursor = .ok (some chunks) ∧
      chunks.map LongValueChunk.entry = entries := by
  obtain ⟨fuel, rfl⟩ : ∃ n, fuel = n + 1 := Nat.exists_eq_add_one_of_ne_zero (by omega)
  induction entries generalizing cursor fuel locator with
  | nil => cases h.first
  | cons entry rest ih =>
    obtain ⟨place, payload⟩ := entry
    obtain rfl : place = locator := by simpa using h.first
    have hlength : cursor.emitted + payload.length + (rest.flatMap Prod.snd).length =
        cursor.reference.length := by
      simpa only [List.flatMap_cons, List.length_append, ← Nat.add_assoc] using h.length_eq
    obtain ⟨value, hvalue⟩ :=
      LongValueKind.exists_interpret_iff.mpr (h.readable _ List.mem_cons_self)
    -- one call reads the fragment; its length is the last one where nothing follows
    have hcall : ∀ {row : List UInt8} {following : Option RowLocator}, RowAt file place row →
        splitRow cursor.reference.storage place row = .ok (payload, following) →
        (following = none → rest = []) →
        (following ≠ none → rest.flatMap Prod.snd ≠ []) →
        nextChunk file cursor =
          (.ok (some { locator := place, rawRow := row, value }),
            cursor.advance place payload following) ∧
        LongValueChunk.entry { locator := place, rawRow := row, value } = (place, payload) := by
      intro row following hrow hsplit hlast hmore
      have hreads : Reads file cursor place payload following
          { locator := place, rawRow := row, value } :=
        { row := hrow
          split := hsplit
          length_le := by omega
          last := fun hnone => by simpa [hlast hnone] using hlength
          more := fun hsome heq => by
            have := List.length_pos_of_ne_nil (hmore hsome)
            omega
          value := hvalue
          locator_eq := rfl }
      exact ⟨(nextChunk_some_iff hactive).mpr ⟨place, payload, following, hnext,
        h.notSource _ List.mem_cons_self, h.fresh _ List.mem_cons_self, hreads, rfl⟩, hreads.entry⟩
    rw [List.length_cons] at hfuel
    cases h.chain with
    | last hrow hsplit =>
      obtain ⟨hcall, hentry⟩ := hcall hrow hsplit (fun _ => rfl) (fun h => absurd rfl h)
      obtain ⟨fuel, rfl⟩ : ∃ n, fuel = n + 1 := Nat.exists_eq_add_one_of_ne_zero (by omega)
      have hend := @drain_none file (cursor.advance place payload none) hactive rfl fuel
      exact ⟨_, (drain_succ hcall).mpr ⟨some [], hend, rfl⟩, by simp [hentry]⟩
    | @link _ next row _ fragment others hrow hsplit hmore hrest =>
      obtain ⟨hcall, hentry⟩ := hcall hrow hsplit (fun h => (by cases h)) (fun _ => hmore)
      obtain ⟨fuel, rfl⟩ : ∃ n, fuel = n + 1 := Nat.exists_eq_add_one_of_ne_zero (by omega)
      have hdistinct := h.distinct
      rw [List.map_cons, List.nodup_cons] at hdistinct
      -- the cursor behind the fragment streams the fragments that follow
      have hstreams : Streams file (cursor.advance place payload (some next)) next
          ((next, fragment) :: others) :=
        { chain := hrest
          first := rfl
          distinct := hdistinct.2
          fresh := fun entry hentry hmem => by
            rcases List.mem_cons.mp hmem with heq | hmem
            · exact hdistinct.1 (List.mem_map.mpr ⟨entry, hentry, heq⟩)
            · exact h.fresh entry (List.mem_cons_of_mem _ hentry) hmem
          notSource := fun entry hentry => h.notSource entry (List.mem_cons_of_mem _ hentry)
          length_eq := hlength
          readable := fun entry hentry => h.readable entry (List.mem_cons_of_mem _ hentry) }
      obtain ⟨chunks, hdrain, hchunks⟩ :=
        @ih (cursor.advance place payload (some next)) hactive next rfl hstreams fuel (by omega)
      exact ⟨_, (drain_succ hcall).mpr ⟨_, hdrain, rfl⟩, by simp [hentry, hchunks]⟩

/-- The stream of a reference returns `entries` exactly where these are a chain of the file that
starts at the target, returns to no row, and makes up the declared length. -/
theorem drain_new_iff {reference : LongValueReference} {entries : List (RowLocator × List UInt8)}
    {fuel : ℕ} :
    (∃ chunks, drain file fuel (new reference) = .ok (some chunks) ∧
        chunks.map LongValueChunk.entry = entries) ↔
      Streams file (new reference) reference.target entries ∧ entries.length < fuel := by
  constructor
  · rintro ⟨chunks, hdrain, rfl⟩
    rw [List.length_map]
    exact streams_of_drain rfl rfl hdrain
  · rintro ⟨hstreams, hfuel⟩
    exact drain_of_streams rfl rfl hstreams hfuel

/-! ## The end of a stream -/

/-- Calls that do not reach the end of a stream have read that many rows. -/
theorem exists_rows_of_drain {fuel : ℕ} (hactive : cursor.failed = false)
    (h : drain file fuel cursor = .ok none) :
    ∃ rows : List RowLocator, rows.length = fuel ∧ rows.Nodup ∧
      ∀ row ∈ rows, row ∉ cursor.visited ∧ row.page < file.pageCount := by
  induction fuel generalizing cursor with
  | zero => exact ⟨[], rfl, List.nodup_nil, by simp⟩
  | succ fuel ih =>
    rcases drain_cases hactive h with ⟨-, hsome⟩ | ⟨chunk, next, rest, hcall, hrest, hnone⟩
    · cases hsome
    obtain ⟨locator, payload, following, -, -, hvisited, hreads, rfl⟩ :=
      (nextChunk_some_iff hactive).mp hcall
    obtain rfl : rest = none := by
      cases rest with
      | none => rfl
      | some rest => cases hnone
    obtain ⟨rows, hlength, hdistinct, hrows⟩ :=
      @ih (cursor.advance locator payload following) hactive hrest
    obtain ⟨page, -, hpage, -⟩ := hreads.row
    have hinside : locator.page < file.pageCount := (List.getElem?_eq_some_iff.mp hpage).1
    refine ⟨locator :: rows, by rw [List.length_cons, hlength], ?_, ?_⟩
    · exact List.nodup_cons.mpr ⟨fun hmem => (hrows locator hmem).1 List.mem_cons_self, hdistinct⟩
    · refine List.forall_mem_cons.mpr ⟨⟨hvisited, hinside⟩, fun row hrow => ?_⟩
      exact ⟨fun hmem => (hrows row hrow).1 (List.mem_cons_of_mem _ hmem), (hrows row hrow).2⟩

/-- The number of a row among all rows of a file. -/
def rowNumber (row : RowLocator) : ℕ :=
  256 * row.page + row.slot.toNat

/-- Rows of a file have numbers of their own. -/
theorem rowNumber_injective : Function.Injective rowNumber := by
  rintro ⟨page, slot⟩ ⟨page', slot'⟩ h
  have hslot := slot.toNat_lt
  have hslot' := slot'.toNat_lt
  simp only [rowNumber] at h
  have hpages : @Eq ℕ page page' := by omega
  have hslots : slot = slot' := UInt8.toNat_inj.mp (by omega)
  rw [hpages, hslots]

/-- A failed cursor is at its end. -/
theorem drain_of_failed (hfailed : cursor.failed = true) (fuel : ℕ) :
    drain file (fuel + 1) cursor = .ok (some []) := by
  have hcall : nextChunk file cursor = (.ok none, cursor) := by
    rw [nextChunk, if_pos hfailed]
  rw [drain, hcall]

/-- A stream ends within a call for each row a file can hold and one more, whatever the file is and
wherever the cursor stands. -/
theorem drain_ne_none {fuel : ℕ} (hfuel : 256 * file.pageCount < fuel) :
    drain file fuel cursor ≠ .ok none := by
  intro h
  rcases hfailed : cursor.failed with _ | _
  · obtain ⟨rows, hlength, hdistinct, hrows⟩ := exists_rows_of_drain hfailed h
    -- the rows read are different rows of the file, so there are no more than it can hold
    have hsubset : rows.map rowNumber ⊆ List.range (256 * file.pageCount) := by
      intro number hnumber
      obtain ⟨row, hrow, rfl⟩ := List.mem_map.mp hnumber
      have hslot := row.slot.toNat_lt
      have hpage : @LT.lt ℕ _ row.page file.pageCount := (hrows row hrow).2
      rw [List.mem_range, rowNumber]
      omega
    have hnumbers : (rows.map rowNumber).Nodup :=
      List.Nodup.map rowNumber_injective hdistinct
    have hle := (List.subperm_of_subset hnumbers hsubset).length_le
    rw [List.length_map, List.length_range, hlength] at hle
    omega
  · obtain ⟨fuel, rfl⟩ : ∃ n, fuel = n + 1 := Nat.exists_eq_add_one_of_ne_zero (by omega)
    rw [drain_of_failed hfailed] at h
    cases h

/-- A payload page whose two rows link to each other, each with one byte of payload. -/
def ringPage : Page :=
  ((((((Block.fill pageBytes 1).write ownerOffset longValueOwner).write rowCountOffset
    (leBytes 2 2)).write directoryOffset (leBytes 2 2043)).write (directoryOffset + entryLen)
    (leBytes 2 2038)).write 2043 [1, 1, 0, 0, 7]).write 2038 [0, 1, 0, 0, 8]

/-- A value of ten bytes in the chain that starts at the first row of the page. -/
def ringReference : LongValueReference :=
  { rawHeader := [], source := ⟨2, 0⟩, target := ⟨1, 0⟩, length := 10, storage := .chained
    kind := .ole, codePage := .windows1252 }

/-- A stream into a cyclic chain ends: two calls return the two rows, and the third refuses the
first one again. -/
theorem drain_ne_none_ring :
    drain [Block.fill pageBytes 0, ringPage] 513 (new ringReference) ≠ .ok none ∧
      drain [Block.fill pageBytes 0, ringPage] 2 (new ringReference) = .ok none ∧
      drain [Block.fill pageBytes 0, ringPage] 3 (new ringReference) =
        .error (.cycle ⟨1, 0⟩) :=
  ⟨drain_ne_none (by decide), by decide +kernel, by decide +kernel⟩

end LongValueCursor

end Jet3
