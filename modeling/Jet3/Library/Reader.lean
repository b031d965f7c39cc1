import Jet3.Library.Bytes
import Jet3.Library.Outcome

/-!
# Reading records in order

A decoder reads a list of bytes from the front: fixed-length records, and names that follow a byte
with their length. What it has not read yet is passed on.

* `Bytes n` is a record of `n` bytes; it carries its own length;
* `take` and `takeName` read one item, and `take_ok_iff` and `takeName_ok_iff` say that what was
  read and what is left make up what there was;
* `leAt` reads a little-endian number inside a record;
* `exists_foldlM_read` is the rule of a loop that reads one item after another.
-/

/-- A record of `n` bytes. -/
abbrev Bytes (n : ℕ) : Type := { bytes : List UInt8 // bytes.length = n }

/-- The `width`-byte little-endian number at `offset`. -/
def leAt (bytes : List UInt8) (offset width : ℕ) : ℕ :=
  leValue ((bytes.drop offset).take width)

/-- The byte at `offset`; zero beyond the end. -/
def byteAt (bytes : List UInt8) (offset : ℕ) : UInt8 :=
  bytes.getD offset 0

/-- A number is read from the piece of a list that holds it. -/
theorem leAt_append {front field back : List UInt8} {offset width : ℕ}
    (hoffset : front.length = offset) (hwidth : field.length = width) :
    leAt (front ++ (field ++ back)) offset width = leValue field := by
  rw [leAt, List.drop_left' hoffset, List.take_left' hwidth]

/-- What is read from a record of fields, at the offset where one of them starts, is that field. -/
theorem take_drop_flatten {fields : List (List UInt8)} {field back : List UInt8}
    {k offset width : ℕ} (hfield : fields[k]? = some field)
    (hoffset : (fields.take k).flatten.length = offset) (hwidth : field.length = width) :
    ((fields.flatten ++ back).drop offset).take width = field := by
  obtain ⟨hlt, rfl⟩ := List.getElem?_eq_some_iff.mp hfield
  have hsplit : fields.flatten ++ back =
      (fields.take k).flatten ++ (fields[k] ++ ((fields.drop (k + 1)).flatten ++ back)) := by
    rw [← List.append_assoc fields[k], ← List.flatten_cons, ← List.drop_eq_getElem_cons hlt,
      ← List.append_assoc, ← List.flatten_append, List.take_append_drop]
  rw [hsplit, List.drop_left' hoffset, List.take_left' hwidth]

/-- A number is read from the field of a record that holds it. -/
theorem leAt_flatten {fields : List (List UInt8)} {field : List UInt8} {k offset width : ℕ}
    (hfield : fields[k]? = some field) (hoffset : (fields.take k).flatten.length = offset)
    (hwidth : field.length = width) : leAt fields.flatten offset width = leValue field := by
  have hread : ((fields.flatten ++ []).drop offset).take width = field :=
    take_drop_flatten hfield hoffset hwidth
  rw [List.append_nil] at hread
  rw [leAt, hread]

theorem leAt_lt (bytes : List UInt8) (offset width : ℕ) :
    leAt bytes offset width < 256 ^ width := by
  refine (leValue_lt _).trans_le (Nat.pow_le_pow_right (by omega) ?_)
  rw [List.length_take]
  omega

/-- The bytes of a number are those it was read from. -/
theorem leBytes_leAt {bytes : List UInt8} {offset width : ℕ} (h : offset + width ≤ bytes.length) :
    leBytes width (leAt bytes offset width) = (bytes.drop offset).take width := by
  have hlen : ((bytes.drop offset).take width).length = width := by
    rw [List.length_take, List.length_drop]
    omega
  have hbytes := leBytes_leValue ((bytes.drop offset).take width)
  rwa [hlen] at hbytes

/-- Overlays `field` at `offset`. -/
def overwrite (bytes : List UInt8) (offset : ℕ) (field : List UInt8) : List UInt8 :=
  bytes.take offset ++ (field ++ bytes.drop (offset + field.length))

/-- Overlaying what is there already changes nothing. -/
theorem overwrite_self {bytes field : List UInt8} {offset : ℕ}
    (h : (bytes.drop offset).take field.length = field) : overwrite bytes offset field = bytes := by
  have hrest : field ++ bytes.drop (offset + field.length) = bytes.drop offset := by
    calc field ++ bytes.drop (offset + field.length)
        = (bytes.drop offset).take field.length ++ (bytes.drop offset).drop field.length := by
          rw [h, List.drop_drop]
      _ = bytes.drop offset := List.take_append_drop _ _
  rw [overwrite, hrest, List.take_append_drop]

/-- A first piece of `c` bytes, or of all there is, is split off at `c`. -/
theorem take_drop_piece (piece rest : List UInt8) {c : ℕ}
    (h : piece.length = min (piece.length + rest.length) c) :
    (piece ++ rest).take c = piece ∧ (piece ++ rest).drop c = rest := by
  rcases Nat.lt_or_ge piece.length c with hlt | hge
  · have hrest : rest = [] := List.length_eq_zero_iff.mp (by omega)
    rw [hrest, List.append_nil]
    exact ⟨List.take_of_length_le hlt.le, List.drop_of_length_le hlt.le⟩
  · have hlen : piece.length = c := by omega
    exact ⟨List.take_left' hlen, List.drop_left' hlen⟩

/-- A piece of a sequence of pieces of one length is found at its multiple of the length. -/
theorem take_drop_flatMap {α β : Type} {g : α → List β} {w : ℕ} (hw : ∀ a, (g a).length = w)
    {l : List α} {n : ℕ} {a : α} (ha : l[n]? = some a) (tail : List β) :
    ((l.flatMap g ++ tail).drop (n * w)).take w = g a := by
  induction l generalizing n with
  | nil => simp at ha
  | cons b l ih =>
    rw [List.flatMap_cons, List.append_assoc]
    cases n with
    | zero =>
      rw [List.getElem?_cons_zero, Option.some.injEq] at ha
      rw [Nat.zero_mul, List.drop_zero, List.take_left' (hw b), ha]
    | succ n =>
      have hskip : (n + 1) * w = (g b).length + n * w := by rw [hw, Nat.succ_mul, Nat.add_comm]
      rw [hskip, List.drop_append]
      have hnil : (g b).drop ((g b).length + n * w) = [] :=
        List.drop_of_length_le (Nat.le_add_right _ _)
      rw [hnil, List.nil_append, Nat.add_sub_cancel_left]
      exact ih ha

namespace Reader

variable {ε : Type} (truncated : ℕ → ℕ → ℕ → ε) (total : ℕ)

/-- Reads a record of `length` bytes. A failure reports the offset, the length needed and the
total. -/
def take (length : ℕ) (rest : List UInt8) : Except ε (Bytes length × List UInt8) :=
  if h : length ≤ rest.length then
    .ok (⟨rest.take length, by rw [List.length_take, Nat.min_eq_left h]⟩, rest.drop length)
  else .error (truncated (total - rest.length) length total)

/-- Reads a name: its length in one byte, and its bytes. -/
def takeName (rest : List UInt8) : Except ε (List UInt8 × List UInt8) := do
  let (length, rest) ← take truncated total 1 rest
  let (name, rest) ← take truncated total (leAt length.val 0 1) rest
  return (name.val, rest)

/-- The bytes of a stored name. -/
def nameBytes (name : List UInt8) : List UInt8 :=
  UInt8.ofNat name.length :: name

variable {truncated total}

/-- A reader takes the bytes in front of it. -/
theorem take_ok_iff {length : ℕ} {rest rest' : List UInt8} {bytes : Bytes length} :
    take truncated total length rest = .ok (bytes, rest') ↔ rest = bytes.val ++ rest' := by
  unfold take
  constructor
  · intro h
    split at h
    · simp only [Except.ok.injEq, Prod.mk.injEq] at h
      obtain ⟨rfl, rfl⟩ := h
      exact (List.take_append_drop length rest).symm
    · cases h
  · rintro rfl
    have hle : length ≤ (bytes.val ++ rest').length := by
      rw [List.length_append, bytes.property]
      omega
    rw [dif_pos hle]
    simp only [Except.ok.injEq, Prod.mk.injEq]
    exact ⟨Subtype.ext (List.take_left' bytes.property), List.drop_left' bytes.property⟩

/-- A reader takes a name behind its length byte. -/
theorem takeName_ok_iff {rest rest' name : List UInt8} :
    takeName truncated total rest = .ok (name, rest') ↔
      name.length < 256 ∧ rest = nameBytes name ++ rest' := by
  unfold takeName
  constructor
  · intro h
    -- the length byte first, then as many bytes as it says
    rcases hlength : take truncated total 1 rest with e | ⟨length, rest₁⟩
    · rw [hlength] at h
      cases h
    rw [hlength] at h
    rcases hname : take truncated total (leAt length.val 0 1) rest₁ with e | ⟨bytes, rest₂⟩
    · simp only [bind, Except.bind, hname] at h
      cases h
    simp only [bind, Except.bind, hname, pure, Except.pure, Except.ok.injEq, Prod.mk.injEq] at h
    obtain ⟨rfl, rfl⟩ := h
    rw [take_ok_iff] at hlength hname
    obtain ⟨b, hb⟩ := List.length_eq_one_iff.mp length.property
    have hvalue : leAt length.val 0 1 = b.toNat := by simp [leAt, hb, leValue]
    have hnat : bytes.val.length = b.toNat := bytes.property.trans hvalue
    refine ⟨hnat ▸ b.toNat_lt, ?_⟩
    rw [hlength, hname, nameBytes, hnat, UInt8.ofNat_toNat]
    exact congrArg (· ++ (bytes.val ++ rest₂)) hb
  · rintro ⟨hlt, rfl⟩
    have hsingle : take truncated total 1 (nameBytes name ++ rest') =
        .ok (⟨[UInt8.ofNat name.length], rfl⟩, name ++ rest') := take_ok_iff.mpr rfl
    have hvalue : leAt [UInt8.ofNat name.length] 0 1 = name.length := by
      have hnat : (UInt8.ofNat name.length).toNat = name.length := by
        rw [UInt8.toNat_ofNat', Nat.mod_eq_of_lt hlt]
      simp [leAt, leValue, hnat]
    have hrest : take truncated total (leAt [UInt8.ofNat name.length] 0 1) (name ++ rest') =
        .ok (⟨name, hvalue.symm⟩, rest') := take_ok_iff.mpr rfl
    rw [hsingle]
    simp only [bind, Except.bind, hrest]
    rfl

/-- A loop that reads the items of a section one after another leaves what follows the section. -/
theorem exists_foldlM_read {α β σ : Type} {f : σ × List UInt8 → β → Except ε (σ × List UInt8)}
    (key : α → β) (stored : α → List UInt8) (motive : List α → σ → Prop) {l : List α} {s : σ}
    (tail : List UInt8) (init : motive [] s)
    (step : ∀ (done : List α) (a : α) (rest : List α) (t : σ) (remaining : List UInt8),
      l = done ++ a :: rest → motive done t →
      ∃ t', f (t, stored a ++ remaining) (key a) = .ok (t', remaining) ∧ motive (done ++ [a]) t') :
    ∃ s', (l.map key).foldlM f (s, l.flatMap stored ++ tail) = .ok (s', tail) ∧
      motive l s' := by
  suffices h : ∃ s', l.foldlM (fun state a => f state (key a)) (s, l.flatMap stored ++ tail) =
      .ok s' ∧ ∃ t, s' = (t, tail) ∧ motive l t by
    obtain ⟨_, hloop, t, rfl, hmotive⟩ := h
    exact ⟨t, by rw [List.foldlM_map]; exact hloop, hmotive⟩
  -- After the items `done`, what is left to read are the bytes of the others.
  have key' := Outcome.exists_foldlM_ok (f := fun state a => f state (key a)) (l := l)
    (fun done state => ∀ rest, l = done ++ rest →
      ∃ t, state = (t, rest.flatMap stored ++ tail) ∧ motive done t)
    (s := (s, l.flatMap stored ++ tail)) (by
      rintro rest rfl
      exact ⟨s, rfl, init⟩) (by
      rintro done a rest state hitems hstate
      obtain ⟨t, rfl, hmotive⟩ := hstate (a :: rest) hitems
      obtain ⟨t', hstep, hmotive'⟩ :=
        step done a rest t (rest.flatMap stored ++ tail) hitems hmotive
      refine ⟨(t', rest.flatMap stored ++ tail), ?_, ?_⟩
      · rw [List.flatMap_cons, List.append_assoc]
        exact hstep
      · intro rest' hrest'
        have hsame : rest' = rest := by
          have := hitems.symm.trans hrest'
          simpa using this.symm
        exact ⟨t', by rw [hsame], hmotive'⟩)
  obtain ⟨s', hloop, hend⟩ := key'
  exact ⟨s', hloop, hend [] (List.append_nil l).symm⟩

end Reader
