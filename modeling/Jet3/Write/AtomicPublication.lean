import Jet3.Write.Atomic

/-!
# Publication is all or nothing

Whatever fails and whoever replaces the private name, an update leaves the target with its old
bytes or with the bytes that were mutated and validated, and it removes no file but its own.

* `Environment.Foreign` are the environments that leave the target alone and put other files under
  the private names; `Environment.Guarded` ones do not strike between a check of the private path
  and what it guards;
* `Intact`, `Held` and `Published` are the machine before, during and after publication;
* each operation has a triple for them, and `updateStages_spec` and `finish_spec` put these
  together.
-/

namespace Jet3.Atomic

open Effect

variable {env : Environment}

/-! ## Environments -/

/-- Other files come and go under the private names. -/
structure Environment.Foreign (env : Environment) : Prop where
  name_ne : ∀ operation time interference,
    env.interference operation time = some interference → interference.name ≠ .target
  entry_ne : ∀ operation time interference,
    env.interference operation time = some interference → interference.entry ≠ some env.created

/-- Nothing strikes between a check of the private path and the rename or the removal it guards,
or between the creation of the private file and the capture of its identity. -/
def Environment.Guarded (env : Environment) : Prop :=
  ∀ operation ∈ [Operation.captureIdentity, .replace, .removeFile], ∀ time,
    env.interference operation time = none

/-- What interference leaves alone. -/
structure Drifts (env : Environment) (m m' : Machine) : Prop where
  contents : m'.contents = m.contents
  changes : m'.changes = m.changes
  armed : m'.armed = m.armed
  target : m'.entries .target = m.entries .target
  privateName : ∀ attempt, m'.entries (.privateName attempt) = m.entries (.privateName attempt) ∨
    m'.entries (.privateName attempt) ≠ some env.created

/-- A property interference does not disturb. -/
def Steady (env : Environment) (I : Machine → Prop) : Prop :=
  ∀ m m', Drifts env m m' → I m → I m'

/-- Interference from outside is a drift. -/
theorem drifts_strike (hforeign : env.Foreign) (operation : Operation) (m : Machine) :
    Drifts env m (m.strike env operation) := by
  unfold Machine.strike
  rcases hstrike : env.interference operation m.clock with _ | interference
  · exact ⟨rfl, rfl, rfl, rfl, fun _ => .inl rfl⟩
  · have hname := hforeign.name_ne _ _ _ hstrike
    refine ⟨rfl, rfl, rfl, Function.update_of_ne hname.symm _ _, fun attempt => ?_⟩
    by_cases hattempt : EntryName.privateName attempt = interference.name
    · right
      show Function.update m.entries interference.name interference.entry (.privateName attempt) ≠ _
      rw [hattempt, Function.update_self]
      exact hforeign.entry_ne _ _ _ hstrike
    · exact .inl (Function.update_of_ne hattempt _ _)

/-- Only the clock and the record of failures differ. -/
structure Still (m m' : Machine) : Prop where
  entries : m'.entries = m.entries
  contents : m'.contents = m.contents
  changes : m'.changes = m.changes
  armed : m'.armed = m.armed

/-- A machine that stands still drifts. -/
theorem Still.drifts {m m' : Machine} (h : Still m m') : Drifts env m m' :=
  ⟨h.contents, h.changes, h.armed, by rw [h.entries], fun _ => .inl (by rw [h.entries])⟩

/-- Without interference the machine stands still. -/
theorem still_strike {operation : Operation} (h : ∀ time, env.interference operation time = none)
    (m : Machine) : Still m (m.strike env operation) := by
  unfold Machine.strike
  rw [h]
  exact ⟨rfl, rfl, rfl, rfl⟩

theorem still_failures (m : Machine) (failures : List (Operation × ℕ)) :
    Still m { m with failures := failures } :=
  ⟨rfl, rfl, rfl, rfl⟩

/-! ## Operations -/

section Operations

variable {α : Type} {operation : Operation} {work : Effect Machine IoError α}
  {P : Machine → Prop} {Q : α → Machine → Prop} {E : IoError → Machine → Prop}

/-- An operation whose work starts from what survives interference. -/
theorem operate_spec (hforeign : env.Foreign) (hP : Steady env P) (hwork : Triple P work Q E)
    (hfail : ∀ m, P m → m.JustFailed operation → E operation.error m) :
    Triple P (operate env operation work) Q E := by
  intro m hm
  have hstruck := hP _ _ (drifts_strike hforeign operation m) hm
  unfold operate operateOr
  split
  · exact hfail _ (hP _ _ (still_failures _ _).drifts hstruck) ⟨m.clock, rfl, rfl⟩
  · exact hwork _ hstruck

/-- An operation nothing strikes before. -/
theorem operate_guarded (hquiet : ∀ time, env.interference operation time = none)
    (hP : ∀ m m', Still m m' → P m → P m') (hwork : Triple P work Q E)
    (hfail : ∀ m, P m → m.JustFailed operation → E operation.error m) :
    Triple P (operate env operation work) Q E := by
  intro m hm
  have hstruck := hP _ _ (still_strike hquiet m) hm
  unfold operate operateOr
  split
  · exact hfail _ (hP _ _ (still_failures _ _) hstruck) ⟨m.clock, rfl, rfl⟩
  · exact hwork _ hstruck

/-- An operation that changes nothing keeps what interference does not disturb. -/
theorem keeps_operate (hforeign : env.Foreign) (hP : Steady env P) (hwork : Keeps P work) :
    Keeps P (operate env operation work) :=
  operate_spec hforeign hP hwork fun _ hm _ => hm

theorem keeps_pure {a : α} : Keeps P (pure a : Effect Machine IoError α) :=
  Triple.of_pure fun _ hm => hm

/-- A lookup changes nothing. -/
theorem keeps_lookup {name : EntryName} : Keeps P (lookup name) := by
  intro m hm
  unfold lookup
  split <;> exact hm

end Operations

/-! ## The machine before publication -/

/-- The target and all files are as they were before, and only entries of the created file were
changed. -/
structure Intact (env : Environment) (before m : Machine) : Prop where
  target : m.entries .target = before.entries .target
  contents : ∀ file ≠ env.created, m.contents file = before.contents file
  changes : ∀ change ∈ m.changes, change.name ≠ .target ∧
    (change.before = none ∨ change.before = some env.created)

/-- No private name is one of the created file. -/
def Gone (env : Environment) (m : Machine) : Prop :=
  ∀ attempt, m.entries (.privateName attempt) ≠ some env.created

/-- No private name but that of the attempt is one of the created file, which is guarded. -/
structure Held (env : Environment) (before : Machine) (attempt : ℕ) (m : Machine) : Prop
    extends Intact env before m where
  unique : ∀ other, m.entries (.privateName other) = some env.created → other = attempt
  armed : m.armed = true

section Before

variable {before : Machine} {attempt : ℕ}

/-- Drifts leave the target as it was. -/
theorem steady_intact : Steady env (Intact env before) := fun _ _ h hm =>
  { target := h.target ▸ hm.target
    contents := h.contents ▸ hm.contents
    changes := h.changes ▸ hm.changes }

/-- Drifts do not bring a private name back. -/
theorem steady_gone : Steady env (Gone env) := fun _ _ h hm attempt => by
  rcases h.privateName attempt with heq | hne
  · exact heq ▸ hm attempt
  · exact hne

/-- Drifts give the created file no other private name, and leave the guard armed. -/
theorem steady_held : Steady env (Held env before attempt) := fun _ _ h hm =>
  { steady_intact _ _ h hm.toIntact with
    unique := fun other hother => by
      rcases h.privateName other with heq | hne
      · exact hm.unique other (heq ▸ hother)
      · exact absurd hother hne
    armed := h.armed ▸ hm.armed }

/-- What is steady together. -/
theorem Steady.and {P Q : Machine → Prop} (hP : Steady env P) (hQ : Steady env Q) :
    Steady env fun m => P m ∧ Q m :=
  fun m m' h hm => ⟨hP m m' h hm.1, hQ m m' h hm.2⟩

/-- Drifts leave the bytes of the private file alone. -/
theorem steady_contents {p : List UInt8 → Prop} : Steady env fun m => p (m.contents env.created) :=
  fun m m' h hm => by
    show p (m'.contents env.created)
    rw [h.contents]
    exact hm

/-- Contents of the created file are no concern of the target. -/
theorem Held.setContents {m : Machine} (h : Held env before attempt m) (bytes : List UInt8) :
    Held env before attempt (m.setContents env.created bytes) :=
  { target := h.target
    contents := fun file hfile => (Function.update_of_ne hfile _ _).trans (h.contents file hfile)
    changes := h.changes
    unique := h.unique
    armed := h.armed }

/-- The target is no private name. -/
theorem target_ne {attempt : ℕ} : EntryName.target ≠ .privateName attempt := by
  intro h
  cases h

theorem privateName_ne {attempt other : ℕ} (h : other ≠ attempt) :
    EntryName.privateName other ≠ .privateName attempt := fun heq =>
  h (EntryName.privateName.inj heq)

/-- A new entry of the created file. -/
theorem Intact.createEntry {m : Machine} (h : Intact env before m) (hgone : Gone env m)
    (hnone : m.entries (.privateName attempt) = none) :
    let created :=
      (m.changeEntry (.privateName attempt) (some env.created)).setContents env.created []
    Intact env before created ∧
      ∀ other, created.entries (.privateName other) = some env.created → other = attempt := by
  refine ⟨⟨?_, ?_, ?_⟩, fun other hother => ?_⟩
  · rw [Machine.entries_setContents, Machine.entries_changeEntry, Function.update_of_ne target_ne,
      h.target]
  · intro file hfile
    rw [Machine.contents_setContents, Machine.contents_changeEntry, Function.update_of_ne hfile,
      h.contents file hfile]
  · intro change hchange
    rcases List.mem_cons.mp hchange with rfl | hchange
    · exact ⟨target_ne.symm, .inl hnone⟩
    · exact h.changes change hchange
  · by_contra hne
    rw [Machine.entries_setContents, Machine.entries_changeEntry,
      Function.update_of_ne (privateName_ne hne)] at hother
    exact hgone other hother

/-- Removing the entry of the created file. -/
theorem Intact.removeEntry {m : Machine} (h : Intact env before m)
    (hunique : ∀ other, m.entries (.privateName other) = some env.created → other = attempt)
    (hentry : m.entries (.privateName attempt) = some env.created) :
    Intact env before (m.changeEntry (.privateName attempt) none) ∧
      Gone env (m.changeEntry (.privateName attempt) none) := by
  refine ⟨⟨?_, h.contents, ?_⟩, fun other hother => ?_⟩
  · rw [Machine.entries_changeEntry, Function.update_of_ne target_ne, h.target]
  · intro change hchange
    rcases List.mem_cons.mp hchange with rfl | hchange
    · exact ⟨target_ne.symm, .inr hentry⟩
    · exact h.changes change hchange
  · by_cases hsame : other = attempt
    · rw [hsame, Machine.entries_changeEntry, Function.update_self] at hother
      cases hother
    · rw [Machine.entries_changeEntry, Function.update_of_ne (privateName_ne hsame)] at hother
      exact hsame (hunique other hother)

end Before

/-! ## The private copy -/

section PrivateCopy

variable {before : Machine} {copy : PrivateCopy}

/-- The run ended with a failed removal of the private entry, or with a failure of the check before
that removal. The check at publication does not end a run: the hook of the cleanup comes after
it. -/
def RemovalFailed (m : Machine) : Prop :=
  m.JustFailed .removeFile ∨ m.JustFailed .pathIdentity

/-- The private entry is gone, unless it is no longer that of the created file, or the run ended
with a failure of its removal or of the check before that. -/
def Cleaned (env : Environment) (m : Machine) : Prop :=
  ∀ attempt, m.entries (.privateName attempt) = some env.created → RemovalFailed m

/-- Where no private name is left, nothing has to be removed. -/
theorem Gone.cleaned {m : Machine} (h : Gone env m) : Cleaned env m :=
  fun attempt hentry => absurd hentry (h attempt)

/-- The removal of an entry known to be that of the created file. -/
theorem removeFile_spec (hguarded : env.Guarded) {attempt : ℕ} :
    Triple (fun m => Held env before attempt m ∧
        m.entries (.privateName attempt) = some env.created)
      (removeFile env (.privateName attempt))
      (fun _ m => Intact env before m ∧ Gone env m)
      fun error m => error ≠ .notFound ∧ Held env before attempt m ∧ RemovalFailed m := by
  refine operate_guarded (hguarded .removeFile (by simp)) ?_ ?_ ?_
  · exact fun m m' h hm => ⟨steady_held _ _ h.drifts hm.1, h.entries ▸ hm.2⟩
  · rintro m ⟨hheld, hentry⟩
    simp only [hentry]
    exact hheld.toIntact.removeEntry hheld.unique hentry
  · exact fun m hm hfailed => ⟨nofun, hm.1, .inl hfailed⟩

/-- The check of the private path, from any state with a guarded copy. -/
theorem verifyPathIdentity_spec (hforeign : env.Foreign) (hidentity : copy.identity = env.created)
    {P : Machine → Prop} (hP : Steady env P) :
    Triple P (copy.verifyPathIdentity env)
      (fun _ m => P m ∧ m.entries copy.path = some env.created)
      fun _ m => P m ∧ (m.entries copy.path = some env.created → RemovalFailed m) := by
  refine Triple.bind (Q := fun actual m => P m ∧ m.entries copy.path = some actual)
    ?_ fun actual => ?_
  · refine operate_spec hforeign hP ?_
      fun m hm hfailed => ⟨hm, fun _ => .inr hfailed⟩
    intro m hm
    unfold lookup
    split
    · rename_i identity hentry
      exact ⟨hm, hentry⟩
    · rename_i hentry
      exact ⟨hm, fun hcreated => nomatch hentry.symm.trans hcreated⟩
  · rw [hidentity]
    split
    · rename_i heq
      exact Triple.of_pure fun m hm => ⟨hm.1, heq ▸ hm.2⟩
    · rename_i hne
      refine Triple.of_fail fun m hm => ⟨hm.1, fun hcreated => ?_⟩
      exact absurd (Option.some.inj (hm.2.symm.trans hcreated)) hne

/-- The rule of disarming. -/
theorem disarm_spec {ε : Type} {P : Machine → Prop} {Q : Unit → Machine → Prop}
    {E : ε → Machine → Prop} (h : ∀ m, P m → Q () { m with armed := false }) :
    Triple P (PrivateCopy.disarm : Effect Machine ε Unit) Q E :=
  Triple.of_change h

/-- The removal succeeds and disarms the guard, or leaves the copy guarded. -/
theorem cleanup_spec (hforeign : env.Foreign) (hguarded : env.Guarded)
    (hidentity : copy.identity = env.created) :
    Triple (Held env before copy.attempt) (copy.cleanup env)
      (fun _ m => Intact env before m ∧ Gone env m ∧ m.armed = false)
      fun _ => Held env before copy.attempt := by
  refine Triple.bind (keeps_operate hforeign steady_held keeps_pure) fun _ => ?_
  refine Triple.bind ((verifyPathIdentity_spec hforeign hidentity steady_held).mono (fun _ => id)
    (fun _ _ => id) fun _ _ h => h.1) fun _ => ?_
  refine Triple.bind (Triple.attempt (removeFile_spec hguarded)) ?_
  rintro (error | ⟨⟩)
  · -- the entry was there a moment ago, so the failure is another one
    cases error with
    | notFound => exact fun m hm => absurd rfl hm.1
    | _ => exact Triple.of_fail fun m hm => hm.2.1
  · exact disarm_spec fun m hm =>
      ⟨⟨hm.1.target, hm.1.contents, hm.1.changes⟩, hm.2, rfl⟩

/-- Dropping a guarded copy removes its entry, unless the check or the removal fails. -/
theorem drop_held {ε : Type} {E : ε → Machine → Prop} (hforeign : env.Foreign)
    (hguarded : env.Guarded) (hidentity : copy.identity = env.created) :
    Triple (Held env before copy.attempt) (copy.drop env)
      (fun _ m => Intact env before m ∧ Cleaned env m) E := by
  have hdisarm : ∀ m, Intact env before m ∧ Cleaned env m →
      Intact env before { m with armed := false } ∧ Cleaned env { m with armed := false } :=
    fun m hm => ⟨⟨hm.1.target, hm.1.contents, hm.1.changes⟩, hm.2⟩
  intro m hm
  unfold PrivateCopy.drop
  rw [if_pos hm.armed]
  refine Triple.bind (Triple.attempt (verifyPathIdentity_spec hforeign hidentity steady_held)) ?_ m
    hm
  rintro (error | ⟨⟩)
  · refine disarm_spec fun m hm => hdisarm m ⟨hm.1.toIntact, fun attempt hentry => hm.2 ?_⟩
    rwa [hm.1.unique attempt hentry] at hentry
  · refine Triple.bind (Triple.attempt (removeFile_spec hguarded)) ?_
    rintro (error | ⟨⟩)
    · exact disarm_spec fun m hm => hdisarm m ⟨hm.2.1.toIntact, fun _ _ => hm.2.2⟩
    · exact disarm_spec fun m hm => hdisarm m ⟨hm.1, hm.2.cleaned⟩

/-- Dropping a copy that is no longer guarded does nothing. -/
theorem drop_disarmed {ε : Type} {P : Machine → Prop} {E : ε → Machine → Prop}
    (hdisarmed : ∀ m, P m → m.armed = false) : Triple P (copy.drop env) (fun _ => P) E := by
  intro m hm
  unfold PrivateCopy.drop
  rw [if_neg (by rw [hdisarmed m hm]; decide)]
  exact hm

/-- The guard alone removes the entry it was created for. -/
theorem dropGuard_spec (hguarded : env.Guarded) {attempt : ℕ} {E : IoError → Machine → Prop} :
    Triple (fun m => Held env before attempt m ∧
        m.entries (.privateName attempt) = some env.created)
      (PrivateCopy.dropGuard env (.privateName attempt))
      (fun _ m => Intact env before m ∧ Cleaned env m) E := by
  refine Triple.bind (Triple.attempt (removeFile_spec hguarded)) ?_
  rintro (error | ⟨⟩)
  · exact disarm_spec fun m hm =>
      ⟨⟨hm.2.1.target, hm.2.1.contents, hm.2.1.changes⟩, fun _ _ => hm.2.2⟩
  · exact disarm_spec fun m hm => ⟨⟨hm.1.target, hm.1.contents, hm.1.changes⟩, hm.2.cleaned⟩

/-- A private copy is created under the first name that is free. -/
theorem createFrom_spec (hforeign : env.Foreign) (hguarded : env.Guarded) (attempts attempt : ℕ) :
    Triple (fun m => Intact env before m ∧ Gone env m)
      (PrivateCopy.createFrom env attempts attempt)
      (fun copy m => copy.identity = env.created ∧ Held env before copy.attempt m ∧
        m.contents env.created = [])
      fun _ m => Intact env before m ∧ Cleaned env m := by
  induction attempts generalizing attempt with
  | zero => exact Triple.of_fail fun m hm => ⟨hm.1, hm.2.cleaned⟩
  | succ attempts ih =>
    refine Triple.bind (Q := Post (fun _ m => Intact env before m ∧
        (∀ other, m.entries (.privateName other) = some env.created → other = attempt) ∧
        m.entries (.privateName attempt) = some env.created ∧ m.contents env.created = [])
      fun _ m => Intact env before m ∧ Gone env m) (Triple.attempt ?_) ?_
    · refine operate_spec hforeign (steady_intact.and steady_gone) ?_ fun m hm _ => hm
      rintro m ⟨hintact, hgone⟩
      rcases hentry : m.entries (.privateName attempt) with _ | other
      · simp only [hentry]
        obtain ⟨hcreated, hunique⟩ := hintact.createEntry hgone hentry
        exact ⟨hcreated, hunique, by simp, by simp⟩
      · simp only [hentry]
        exact ⟨hintact, hgone⟩
    · rintro (error | ⟨⟩)
      · cases error with
        | alreadyExists message => exact ih (attempt + 1)
        | _ => exact Triple.of_fail fun m hm => ⟨hm.1, hm.2.cleaned⟩
      · -- the entry is guarded from here on, and nothing strikes before its identity is known
        have harmed : ∀ m m', Still m m' → Held env before attempt m ∧
            m.entries (.privateName attempt) = some env.created ∧ m.contents env.created = [] →
            Held env before attempt m' ∧
              m'.entries (.privateName attempt) = some env.created ∧ m'.contents env.created = [] :=
          fun m m' h hm => ⟨steady_held _ _ h.drifts hm.1, h.entries ▸ hm.2.1, h.contents ▸ hm.2.2⟩
        refine Triple.bind (Q := fun _ m => Held env before attempt m ∧
          m.entries (.privateName attempt) = some env.created ∧ m.contents env.created = [])
          (Triple.of_change fun m hm => ?_) fun _ => ?_
        · exact ⟨⟨⟨hm.1.target, hm.1.contents, hm.1.changes⟩, hm.2.1, rfl⟩, hm.2.2.1, hm.2.2.2⟩
        · refine Triple.bind (Triple.attempt (operate_guarded
            (Q := fun identity m => identity = env.created ∧ Held env before attempt m ∧
              m.contents env.created = [])
            (E := fun _ m => Held env before attempt m ∧
              m.entries (.privateName attempt) = some env.created)
            (hguarded .captureIdentity (by simp)) harmed
            (Triple.of_pure fun m hm => ⟨rfl, hm.1, hm.2.2⟩) fun m hm _ => ⟨hm.1, hm.2.1⟩)) ?_
          rintro (error | identity)
          · exact Triple.bind (dropGuard_spec hguarded) fun _ => Triple.of_fail fun m hm => hm
          · exact Triple.of_pure fun m hm => hm

end PrivateCopy

/-! ## The private file -/

section PrivateFile

variable {before : Machine} {copy : PrivateCopy}

/-- The private copy is guarded and has these bytes. -/
def Holds (env : Environment) (before : Machine) (attempt : ℕ) (bytes : List UInt8) (m : Machine) :
    Prop :=
  Held env before attempt m ∧ m.contents env.created = bytes

/-- Drifts leave the private copy. -/
theorem steady_holds {attempt : ℕ} {bytes : List UInt8} :
    Steady env (Holds env before attempt bytes) :=
  steady_held.and (steady_contents (p := (· = bytes)))

section Copy

variable {source : FileIdentity} (hforeign : env.Foreign) (hsource : source ≠ env.created)
  (hidentity : copy.identity = env.created)

include hforeign hsource hidentity

/-- A chunk is copied, or a part of it. -/
theorem copyChunk_spec (position chunk : ℕ) :
    Triple (Holds env before copy.attempt ((before.contents source).take position))
      (copyChunk env source copy position chunk)
      (fun _ => Holds env before copy.attempt ((before.contents source).take (position + chunk)))
      fun _ => Held env before copy.attempt := by
  intro m hm
  have hstruck := steady_holds _ _ (drifts_strike hforeign .copyChunk m) hm
  unfold copyChunk operateOr
  rw [hidentity, hm.1.contents source hsource]
  split
  · exact steady_held _ _ (still_failures _ _).drifts (hstruck.1.setContents _)
  · dsimp only
    split
    · exact hstruck.1
    · refine ⟨hstruck.1.setContents _, ?_⟩
      rw [Machine.contents_setContents, Function.update_self, hstruck.2, List.take_add]

/-- The loop copies as many bytes as it is asked to. -/
theorem copyChunks_spec {fuel : ℕ} (position : ℕ) {remaining : ℕ} (hfuel : remaining ≤ fuel) :
    Triple (Holds env before copy.attempt ((before.contents source).take position))
      (copyChunks env source copy fuel position remaining)
      (fun _ => Holds env before copy.attempt
        ((before.contents source).take (position + remaining)))
      fun _ => Held env before copy.attempt := by
  induction fuel generalizing position remaining with
  | zero =>
    obtain rfl : remaining = 0 := Nat.le_zero.mp hfuel
    exact Triple.of_pure fun m hm => hm
  | succ fuel ih =>
    unfold copyChunks
    split
    · rename_i hzero
      subst hzero
      exact Triple.of_pure fun m hm => hm
    · have hchunk : 0 < min remaining copyBufferBytes := by
        unfold copyBufferBytes
        omega
      refine Triple.bind (copyChunk_spec hforeign hsource hidentity _ _) fun _ => ?_
      have hle : remaining - min remaining copyBufferBytes ≤ fuel := by omega
      have hrest := ih (position + min remaining copyBufferBytes) hle
      rwa [Nat.add_assoc, Nat.add_sub_cancel' (Nat.min_le_left _ _)] at hrest

/-- The copy has the bytes of the target. -/
theorem copyOriginal_spec (htarget : before.entries .target = some source) :
    Triple (Holds env before copy.attempt [])
      (copyOriginal env copy (before.contents source).length)
      (fun _ => Holds env before copy.attempt (before.contents source))
      fun _ => Held env before copy.attempt := by
  refine Triple.bind (Q := fun opened m => opened = source ∧ Holds env before copy.attempt [] m)
    ?_ fun opened => ?_
  · refine operate_spec hforeign steady_holds ?_ fun m hm _ => hm.1
    intro m hm
    unfold lookup
    rw [hm.1.target, htarget]
    exact ⟨rfl, hm⟩
  · rintro m ⟨rfl, hm⟩
    have hloop := copyChunks_spec hforeign hsource hidentity 0
      (Nat.le_refl (before.contents opened).length) m hm
    rwa [Nat.zero_add, List.take_length] at hloop

end Copy

/-- The mutation succeeds with the bytes it produces, or leaves a copy that is still guarded. -/
theorem mutate_spec {mutation : List UInt8 → Bool × List UInt8} (hforeign : env.Foreign)
    (hidentity : copy.identity = env.created) {bytes : List UInt8} :
    Triple (Holds env before copy.attempt bytes) (mutate env copy mutation)
      (fun _ m => (mutation bytes).1 = true ∧ Holds env before copy.attempt (mutation bytes).2 m)
      fun _ => Held env before copy.attempt := by
  refine operate_spec hforeign steady_holds ?_ fun m hm _ => hm.1
  intro m hm
  simp only [hidentity, hm.2]
  split
  · rename_i haccepted
    exact ⟨haccepted, hm.1.setContents _, by simp⟩
  · exact hm.1.setContents _

/-- The private name is foreign, or the validator accepted what it names. -/
def Accepted (env : Environment) (validator : Option (List UInt8) → Bool) (attempt : ℕ)
    (m : Machine) : Prop :=
  m.entries (.privateName attempt) = some env.created →
    validator (some (m.contents env.created)) = true

/-- Drifts leave an accepted copy accepted. -/
theorem steady_accepted {validator : Option (List UInt8) → Bool} {attempt : ℕ} :
    Steady env (Accepted env validator attempt) := fun _ _ h hm hentry => by
  rcases h.privateName attempt with heq | hne
  · rw [h.contents]
    exact hm (heq ▸ hentry)
  · exact absurd hentry hne

/-- A copy that passes validation is accepted. -/
theorem validate_spec {validator : Option (List UInt8) → Bool} (hforeign : env.Foreign)
    {bytes : List UInt8} :
    Triple (Holds env before copy.attempt bytes) (validate env copy validator)
      (fun _ m => Holds env before copy.attempt bytes m ∧ Accepted env validator copy.attempt m)
      fun _ => Held env before copy.attempt := by
  refine operate_spec hforeign steady_holds ?_ fun m hm _ => hm.1
  intro m hm
  dsimp only
  split
  · rename_i haccepted
    refine ⟨hm, fun hentry => ?_⟩
    have hpath : m.entries copy.path = some env.created := hentry
    rwa [hpath] at haccepted
  · exact hm.1

end PrivateFile

/-! ## An update -/

/-- The target is the created file, with bytes that were mutated and validated. -/
structure Published (env : Environment) (mutation : List UInt8 → Bool × List UInt8)
    (validator : Option (List UInt8) → Bool) (original : List UInt8) (m : Machine) : Prop where
  accepted : (mutation original).1 = true
  validated : validator (some (mutation original).2) = true
  target : m.entries .target = some env.created
  contents : m.contents env.created = (mutation original).2
  changes : ∀ change ∈ m.changes, change.name ≠ .target →
    change.before = none ∨ change.before = some env.created

section Update

variable {before : Machine} {original : List UInt8} {copy : PrivateCopy}
  {mutation : List UInt8 → Bool × List UInt8} {validator : Option (List UInt8) → Bool}

/-- Drifts leave what was published. -/
theorem steady_published : Steady env fun m =>
    Published env mutation validator original m ∧ m.armed = false := fun _ _ h hm =>
  ⟨{ hm.1 with
      target := h.target ▸ hm.1.target
      contents := h.contents ▸ hm.1.contents
      changes := h.changes ▸ hm.1.changes }, h.armed ▸ hm.2⟩

/-- What was published stays so without the guard. -/
theorem disarm_published {ε : Type} {E : ε → Machine → Prop} :
    Triple (Published env mutation validator original) PrivateCopy.disarm
      (fun _ m => Published env mutation validator original m ∧ m.armed = false) E :=
  disarm_spec fun _ h => ⟨⟨h.accepted, h.validated, h.target, h.contents, h.changes⟩, rfl⟩

/-- What a failure leaves to be cleaned up: a guarded copy before publication, and nothing after. -/
def Broken (env : Environment) (mutation : List UInt8 → Bool × List UInt8)
    (validator : Option (List UInt8) → Bool) (before : Machine) (original : List UInt8)
    (attempt : ℕ) (error : PublishError) (m : Machine) : Prop :=
  if error.stage.isPostPublication then
    Published env mutation validator original m ∧ m.armed = false
  else Held env before attempt m

/-- What is done at a stage before publication. -/
theorem atStage_spec {α : Type} {stage : PublishStage} (hstage : stage.isPostPublication = false)
    {work : Effect Machine IoError α} {P : Machine → Prop} {Q : α → Machine → Prop} {attempt : ℕ}
    (h : Triple P work Q fun _ => Held env before attempt) :
    Triple P (atStage stage work) Q (Broken env mutation validator before original attempt) := by
  refine Triple.mapError (h.mono (fun _ => id) (fun _ _ => id) fun error m hm => ?_)
  unfold Broken
  rwa [if_neg (by rw [hstage]; decide)]

/-- Work that changes nothing, at a stage before publication. -/
theorem quiet_spec {stage : PublishStage} (hstage : stage.isPostPublication = false)
    (hforeign : env.Foreign) {operation : Operation} {α : Type} {work : Effect Machine IoError α}
    {P : Machine → Prop} {attempt : ℕ} (hP : Steady env P) (hwork : Keeps P work)
    (hheld : ∀ m, P m → Held env before attempt m) :
    Triple P (atStage stage (operate env operation work)) (fun _ => P)
      (Broken env mutation validator before original attempt) :=
  atStage_spec hstage ((keeps_operate hforeign hP hwork).mono (fun _ => id) (fun _ _ => id)
    fun _ => hheld)

/-- A copy that was mutated, and validated as long as its name is its own. -/
def Ready (env : Environment) (mutation : List UInt8 → Bool × List UInt8)
    (validator : Option (List UInt8) → Bool) (before : Machine) (original : List UInt8)
    (attempt : ℕ) (m : Machine) : Prop :=
  (mutation original).1 = true ∧ Holds env before attempt (mutation original).2 m ∧
    Accepted env validator attempt m

/-- Drifts leave a copy that is ready. -/
theorem steady_ready {attempt : ℕ} :
    Steady env (Ready env mutation validator before original attempt) :=
  fun m m' h hm => ⟨hm.1, steady_holds m m' h hm.2.1, steady_accepted m m' h hm.2.2⟩

/-- The rename publishes what was checked to be the created file. -/
theorem replace_spec (hguarded : env.Guarded) :
    Triple (fun m => Ready env mutation validator before original copy.attempt m ∧
        m.entries copy.path = some env.created)
      (replace env copy.path)
      (fun _ => Published env mutation validator original)
      fun _ => Held env before copy.attempt := by
  refine operate_guarded (hguarded .replace (by simp)) ?_ ?_ fun m hm _ => hm.1.2.1.1
  · exact fun m m' h hm => ⟨steady_ready _ _ h.drifts hm.1, h.entries ▸ hm.2⟩
  · rintro m ⟨⟨haccepted, hholds, hvalidated⟩, hentry⟩
    simp only [hentry]
    refine ⟨haccepted, hholds.2 ▸ hvalidated hentry, ?_, hholds.2, ?_⟩
    · have hpath : EntryName.target ≠ copy.path := target_ne
      rw [Machine.entries_changeEntry, Function.update_of_ne hpath, Machine.entries_changeEntry,
        Function.update_self]
    · intro change hchange hname
      rcases List.mem_cons.mp hchange with rfl | hchange
      · right
        show (Function.update m.entries .target (some env.created)) copy.path = _
        rw [Function.update_of_ne hname, hentry]
      · rcases List.mem_cons.mp hchange with rfl | hchange
        · exact absurd rfl hname
        · exact (hholds.1.changes change hchange).2

/-- Work that changes nothing, after publication. -/
theorem posted_spec (hforeign : env.Foreign) {operation : Operation} {attempt : ℕ} :
    Triple (fun m => Published env mutation validator original m ∧ m.armed = false)
      (atStage .directorySync (operate env operation (pure ())))
      (fun _ m => Published env mutation validator original m ∧ m.armed = false)
      (Broken env mutation validator before original attempt) :=
  Triple.mapError (keeps_operate hforeign steady_published keeps_pure)

section Stages

variable {source : FileIdentity} (hforeign : env.Foreign) (hguarded : env.Guarded)
  (hidentity : copy.identity = env.created)

include hforeign hguarded hidentity

/-- The stages publish, or leave what can be cleaned up. -/
theorem updateStages_spec (hsource : source ≠ env.created)
    (htarget : before.entries .target = some source) :
    Triple (Holds env before copy.attempt [])
      (updateStages env mutation validator copy (before.contents source).length)
      (fun _ m => Published env mutation validator (before.contents source) m ∧ m.armed = false)
      (Broken env mutation validator before (before.contents source) copy.attempt) := by
  refine Triple.bind (quiet_spec rfl hforeign steady_holds keeps_pure fun m hm => hm.1) fun _ => ?_
  refine Triple.bind (atStage_spec rfl
    (copyOriginal_spec hforeign hsource hidentity htarget)) fun _ => ?_
  refine Triple.bind (quiet_spec rfl hforeign steady_holds keeps_pure fun m hm => hm.1) fun _ => ?_
  refine Triple.bind (quiet_spec rfl hforeign steady_holds keeps_pure fun m hm => hm.1) fun _ => ?_
  refine Triple.bind (atStage_spec rfl (mutate_spec hforeign hidentity)) fun _ =>
    Triple.of_and fun haccepted => ?_
  refine Triple.bind (quiet_spec rfl hforeign steady_holds keeps_pure fun m hm => hm.1) fun _ => ?_
  refine Triple.bind (quiet_spec rfl hforeign steady_holds
    (Triple.bind keeps_lookup fun _ => keeps_pure) fun m hm => hm.1) fun _ => ?_
  refine Triple.bind (quiet_spec rfl hforeign steady_holds keeps_pure fun m hm => hm.1) fun _ => ?_
  -- from the validation on the copy is ready
  refine Triple.bind (Q := fun _ => Ready env mutation validator before (before.contents source)
    copy.attempt) ?_ fun _ => ?_
  · refine atStage_spec rfl ((validate_spec hforeign).mono (fun _ => id) ?_ fun _ _ => id)
    exact fun _ m hm => ⟨haccepted, hm⟩
  refine Triple.bind (quiet_spec rfl hforeign steady_ready keeps_pure fun m hm => hm.2.1.1)
    fun _ => ?_
  refine Triple.bind (quiet_spec rfl hforeign steady_ready keeps_pure fun m hm => hm.2.1.1)
    fun _ => ?_
  refine Triple.bind (quiet_spec rfl hforeign steady_ready keeps_pure fun m hm => hm.2.1.1)
    fun _ => ?_
  refine Triple.bind (quiet_spec rfl hforeign steady_ready keeps_pure fun m hm => hm.2.1.1)
    fun _ => ?_
  refine Triple.bind (atStage_spec rfl
    ((verifyPathIdentity_spec hforeign hidentity steady_ready).mono (fun _ => id) (fun _ _ => id)
      fun _ m hm => hm.1.2.1.1)) fun _ => ?_
  -- the rename publishes it, and the guard is disarmed
  refine Triple.bind (atStage_spec rfl (replace_spec hguarded)) fun _ => ?_
  refine Triple.bind disarm_published fun _ => ?_
  exact Triple.bind (posted_spec hforeign) fun _ => posted_spec hforeign

/-- What a failed update leaves. -/
theorem finish_error_spec {error : PublishError} :
    Triple (Broken env mutation validator before original copy.attempt error)
      (finish env copy (.error error))
      (fun _ _ => False)
      fun error' m => error'.stage = error.stage ∧
        if error'.stage.isPostPublication then Published env mutation validator original m
        else Intact env before m ∧ Cleaned env m := by
  unfold finish Broken
  by_cases hstage : error.stage.isPostPublication = true
  · simp only [hstage, if_true]
    refine Triple.bind (drop_disarmed fun m hm => hm.2) fun _ => Triple.of_fail fun m hm => ?_
    exact ⟨rfl, by simpa only [hstage, if_true] using hm.1⟩
  · simp only [hstage, if_false, Bool.false_eq_true]
    refine Triple.bind (Triple.attempt (cleanup_spec hforeign hguarded hidentity)) ?_
    rintro (cleanupError | ⟨⟩)
    · refine Triple.bind (drop_held hforeign hguarded hidentity) fun _ =>
        Triple.of_fail fun m hm => ?_
      exact ⟨rfl, by simpa only [hstage, if_false, Bool.false_eq_true] using hm⟩
    · refine Triple.bind (drop_disarmed fun m hm => hm.2.2) fun _ => Triple.of_fail fun m hm => ?_
      exact ⟨rfl, by simpa only [hstage, if_false, Bool.false_eq_true] using ⟨hm.1, hm.2.1.cleaned⟩⟩

end Stages

variable (mutation validator) in
/-- Every end of an update of a target that is a file. -/
theorem atomicUpdate_spec (hforeign : env.Foreign) (hguarded : env.Guarded)
    {source : FileIdentity} (hsource : source ≠ env.created)
    (htarget : before.entries .target = some source) :
    Triple (fun m => Intact env before m ∧ Gone env m)
      (atomicUpdateBudgeted env mutation validator)
      (fun _ => Published env mutation validator (before.contents source))
      fun error m =>
        if error.stage.isPostPublication then
          Published env mutation validator (before.contents source) m
        else Intact env before m ∧ Cleaned env m := by
  have hsteady : Steady env fun m => Intact env before m ∧ Gone env m :=
    steady_intact.and steady_gone
  refine Triple.bind (Q := fun target m => target = source ∧ Intact env before m ∧ Gone env m)
    (Triple.mapError (operate_spec hforeign hsteady ?_ fun m hm _ => ?_)) fun target => ?_
  · intro m hm
    unfold lookup
    rw [hm.1.target, htarget]
    exact ⟨rfl, hm⟩
  · exact ⟨hm.1, hm.2.cleaned⟩
  refine Triple.of_and fun htarget => ?_
  subst htarget
  refine Triple.bind (Q := fun length m => length = (before.contents target).length ∧
    Intact env before m ∧ Gone env m) ?_ fun length => Triple.of_and fun hlength => ?_
  · exact fun m hm => ⟨by rw [hm.1.contents target hsource], hm⟩
  subst hlength
  split
  · exact Triple.of_fail fun m hm => ⟨hm.1, hm.2.cleaned⟩
  refine Triple.bind (Triple.mapError ((keeps_operate hforeign hsteady keeps_pure).mono
    (fun _ => id) (fun _ _ => id) fun _ m hm => ⟨hm.1, hm.2.cleaned⟩)) fun _ => ?_
  -- before the private file is created there is nothing to remove
  refine Triple.bind (Triple.mapError ((createFrom_spec hforeign hguarded _ _).mono
    (fun _ => id) (fun _ _ => id) fun _ m hm => hm)) fun copy =>
    Triple.of_and fun hidentity => ?_
  refine Triple.bind (Triple.attempt
    (updateStages_spec hforeign hguarded hidentity hsource htarget)) ?_
  rintro (error | ⟨⟩)
  · -- a failed stage cleans up, a successful one is disarmed
    exact (finish_error_spec hforeign hguarded hidentity).mono (fun _ => id) (fun _ _ => nofun)
      fun _ _ hm => hm.2
  · exact (drop_disarmed fun m hm => hm.2).mono (fun _ => id) (fun _ m hm => hm.1) fun _ _ => id

variable (mutation validator) in
/-- An absent target is refused. -/
theorem atomicUpdate_absent (hforeign : env.Foreign) (htarget : before.entries .target = none) :
    Triple (fun m => Intact env before m ∧ Gone env m)
      (atomicUpdateBudgeted env mutation validator)
      (fun _ _ => False)
      fun error m => error.stage = .privateCopyCreation ∧ Intact env before m ∧ Cleaned env m := by
  refine Triple.bind (Q := fun _ _ => False) (Triple.mapError (operate_spec hforeign
    (steady_intact.and steady_gone) ?_ fun m hm _ => ⟨rfl, hm.1, hm.2.cleaned⟩))
    fun _ m hm => hm.elim
  intro m hm
  unfold lookup
  rw [hm.1.target, htarget]
  exact ⟨rfl, hm.1, hm.2.cleaned⟩

end Update

/-- The target of an update is the file it created, with the bytes that the mutation made of the
old ones and that the validator accepted. -/
def Updated (env : Environment) (mutation : List UInt8 → Bool × List UInt8)
    (validator : Option (List UInt8) → Bool) (before after : Machine) : Prop :=
  ∃ source, before.entries .target = some source ∧
    Published env mutation validator (before.contents source) after

/-- An update publishes what was mutated and validated, or leaves the target alone and cleans up. -/
theorem atomicUpdate_allOrNothing (hforeign : env.Foreign) (hguarded : env.Guarded)
    (mutation : List UInt8 → Bool × List UInt8) (validator : Option (List UInt8) → Bool)
    {before : Machine} (hnew : ∀ name, before.entries name ≠ some env.created)
    (hchanges : before.changes = []) :
    match atomicUpdateBudgeted env mutation validator before with
    | (.ok (), after) => Updated env mutation validator before after
    | (.error error, after) =>
      if error.stage.isPostPublication then Updated env mutation validator before after
      else Intact env before after ∧ Cleaned env after := by
  have hintact : Intact env before before :=
    ⟨rfl, fun _ _ => rfl, by rw [hchanges]; exact nofun⟩
  have hgone : Gone env before := fun attempt => hnew (.privateName attempt)
  rcases htarget : before.entries .target with _ | source
  · -- an absent target is the first thing an update refuses
    have h := atomicUpdate_absent mutation validator hforeign htarget before ⟨hintact, hgone⟩
    rcases hrun : atomicUpdateBudgeted env mutation validator before with ⟨error | ⟨⟩, after⟩ <;>
      rw [hrun] at h
    · obtain ⟨hstage, hafter⟩ := h
      simpa [hstage, PublishStage.isPostPublication] using hafter
    · exact h.elim
  · have hsource : source ≠ env.created := fun heq => hnew .target (heq ▸ htarget)
    have h := atomicUpdate_spec mutation validator hforeign hguarded hsource htarget before
      ⟨hintact, hgone⟩
    rcases hrun : atomicUpdateBudgeted env mutation validator before with ⟨error | ⟨⟩, after⟩ <;>
      rw [hrun] at h
    · dsimp only [Post] at h ⊢
      split at h
      · rename_i hstage
        rw [if_pos hstage]
        exact ⟨source, htarget, h⟩
      · rename_i hstage
        rwa [if_neg hstage]
    · exact ⟨source, htarget, h⟩

/-! ## A creation -/

section Create

/-- An entry under the target name was never replaced. -/
def NeverReplaced (m : Machine) : Prop :=
  ∀ change ∈ m.changes, change.name = .target → change.before = none

/-- Replacements are seen in the changes of the directory. -/
theorem NeverReplaced.of_changes {m m' : Machine} (h : m'.changes = m.changes)
    (hm : NeverReplaced m) : NeverReplaced m' := by
  unfold NeverReplaced
  rwa [h]

/-- A change of another name, or of a target that is absent, replaces nothing. -/
theorem NeverReplaced.changeEntry {m : Machine} (h : NeverReplaced m) {name : EntryName}
    {entry : Option FileIdentity} (hname : name = .target → m.entries .target = none) :
    NeverReplaced (m.changeEntry name entry) := by
  intro change hchange htarget
  rcases List.mem_cons.mp hchange with rfl | hchange
  · have heq : name = .target := htarget
    subst heq
    exact hname rfl
  · exact h change hchange htarget

theorem changes_strike (operation : Operation) (m : Machine) :
    (m.strike env operation).changes = m.changes := by
  unfold Machine.strike
  rcases env.interference operation m.clock with _ | interference <;> rfl

/-- No environment can make an operation replace the target, if its work does not. -/
theorem neverReplaced_operate {α : Type} {operation : Operation} {work : Effect Machine IoError α}
    (hwork : Keeps NeverReplaced work) : Keeps NeverReplaced (operate env operation work) := by
  intro m hm
  have hchanges : (m.strike env operation).changes = m.changes := changes_strike operation m
  have hstruck := hm.of_changes hchanges
  unfold operate operateOr
  split
  · exact hstruck.of_changes rfl
  · exact hwork _ hstruck

theorem neverReplaced_change {ε : Type} {f : Machine → Machine}
    (h : ∀ m, (f m).changes = m.changes) :
    Keeps NeverReplaced (change f : Effect Machine ε Unit) :=
  Triple.of_change fun m hm => hm.of_changes (h m)

theorem neverReplaced_createNew {attempt : ℕ} :
    Keeps NeverReplaced (createNew env (.privateName attempt)) := by
  refine neverReplaced_operate fun m hm => ?_
  split
  · exact hm
  · exact (hm.changeEntry (fun heq => absurd heq.symm target_ne)).of_changes rfl

theorem neverReplaced_removeFile {attempt : ℕ} :
    Keeps NeverReplaced (removeFile env (.privateName attempt)) := by
  refine neverReplaced_operate fun m hm => ?_
  split
  · exact hm.changeEntry fun heq => absurd heq.symm target_ne
  · exact hm

/-- The link is refused where the target exists. -/
theorem neverReplaced_linkNew {name : EntryName} : Keeps NeverReplaced (linkNew env name) := by
  refine neverReplaced_operate fun m hm => ?_
  split
  · exact hm
  · exact hm
  · rename_i htarget
    exact hm.changeEntry fun _ => htarget

/-- Creating a private file replaces nothing. -/
theorem neverReplaced_createFrom (attempts attempt : ℕ) :
    Keeps NeverReplaced (PrivateCopy.createFrom env attempts attempt) := by
  induction attempts generalizing attempt with
  | zero => exact Keeps.of_fail
  | succ attempts ih =>
    refine Keeps.bind neverReplaced_createNew.attempt ?_
    rintro (error | ⟨⟩)
    · cases error with
      | alreadyExists message => exact ih (attempt + 1)
      | _ => exact Keeps.of_fail
    · refine Keeps.bind (neverReplaced_change fun _ => rfl) fun _ =>
        Keeps.bind (neverReplaced_operate Keeps.of_pure).attempt ?_
      rintro (error | identity)
      · exact Keeps.bind (Keeps.bind neverReplaced_removeFile.attempt fun _ =>
          neverReplaced_change fun _ => rfl) fun _ => Keeps.of_fail
      · exact Keeps.of_pure

variable {copy : PrivateCopy}

theorem neverReplaced_verify : Keeps NeverReplaced (copy.verifyPathIdentity env) := by
  refine Keeps.bind (neverReplaced_operate keeps_lookup) fun actual => ?_
  split
  · exact Keeps.of_pure
  · exact Keeps.of_fail

theorem neverReplaced_mutate {mutation : List UInt8 → Bool × List UInt8} :
    Keeps NeverReplaced (mutate env copy mutation) := by
  refine neverReplaced_operate fun m hm => ?_
  dsimp only
  split <;> exact hm.of_changes rfl

theorem neverReplaced_validate {validator : Option (List UInt8) → Bool} :
    Keeps NeverReplaced (validate env copy validator) := by
  refine neverReplaced_operate fun m hm => ?_
  dsimp only
  split <;> exact hm

theorem neverReplaced_quiet {stage : PublishStage} {operation : Operation} :
    Keeps NeverReplaced (atStage stage (operate env operation (pure ()))) :=
  (neverReplaced_operate Keeps.of_pure).mapError

/-- The stages of a creation replace nothing. -/
theorem neverReplaced_createStages {mutation : List UInt8 → Bool × List UInt8}
    {validator : Option (List UInt8) → Bool} :
    Keeps NeverReplaced (createStages env mutation validator copy) :=
  Keeps.bind neverReplaced_quiet fun _ =>
  Keeps.bind neverReplaced_mutate.mapError fun _ =>
  Keeps.bind neverReplaced_quiet fun _ =>
  Keeps.bind neverReplaced_validate.mapError fun _ =>
  Keeps.bind neverReplaced_quiet fun _ =>
  Keeps.bind neverReplaced_quiet fun _ =>
  Keeps.bind neverReplaced_quiet fun _ =>
  Keeps.bind neverReplaced_quiet fun _ =>
  Keeps.bind neverReplaced_verify.mapError fun _ =>
  Keeps.bind neverReplaced_linkNew.mapError fun _ =>
  Keeps.bind (neverReplaced_change fun _ => rfl) fun _ =>
  Keeps.bind neverReplaced_quiet fun _ =>
  Keeps.bind neverReplaced_removeFile.mapError fun _ =>
  neverReplaced_quiet

theorem neverReplaced_drop {ε : Type} :
    Keeps NeverReplaced (copy.drop env : Effect Machine ε Unit) := by
  intro m hm
  unfold PrivateCopy.drop
  split
  · refine Keeps.bind neverReplaced_verify.attempt ?_ m hm
    rintro (error | ⟨⟩)
    · exact neverReplaced_change fun _ => rfl
    · exact Keeps.bind neverReplaced_removeFile.attempt fun _ => neverReplaced_change fun _ => rfl
  · exact hm

/-- The removal of the private file replaces nothing. -/
theorem neverReplaced_cleanup : Keeps NeverReplaced (copy.cleanup env) := by
  refine Keeps.bind (neverReplaced_operate Keeps.of_pure) fun _ =>
    Keeps.bind neverReplaced_verify fun _ =>
    Keeps.bind neverReplaced_removeFile.attempt ?_
  rintro (error | ⟨⟩)
  · cases error with
    | notFound => exact neverReplaced_change fun _ => rfl
    | _ => exact Keeps.of_fail
  · exact neverReplaced_change fun _ => rfl

/-- The end of a creation replaces nothing. -/
theorem neverReplaced_finish (result : Except PublishError Unit) :
    Keeps NeverReplaced (finish env copy result) := by
  unfold finish
  rcases result with error | ⟨⟩
  · dsimp only
    split
    · exact Keeps.bind neverReplaced_drop fun _ => Keeps.of_fail
    · refine Keeps.bind neverReplaced_cleanup.attempt ?_
      rintro (cleanupError | ⟨⟩) <;> exact Keeps.bind neverReplaced_drop fun _ => Keeps.of_fail
  · exact neverReplaced_drop

/-- A creation replaces no entry under the target name, whatever appears there and whenever. -/
theorem atomicCreate_neverReplaces (env : Environment) (mutation : List UInt8 → Bool × List UInt8)
    (validator : Option (List UInt8) → Bool) {before : Machine} (hchanges : before.changes = []) :
    NeverReplaced (atomicCreateWithHook env mutation validator before).2 := by
  have hkeeps : Keeps NeverReplaced (atomicCreateWithHook env mutation validator) := by
    refine Keeps.bind (neverReplaced_operate keeps_lookup).attempt ?_
    rintro (error | identity)
    · cases error with
      | notFound =>
        exact Keeps.bind neverReplaced_quiet fun _ =>
          Keeps.bind (neverReplaced_createFrom _ _).mapError fun copy =>
          Keeps.bind neverReplaced_createStages.attempt neverReplaced_finish
      | _ => exact Keeps.of_fail
    · exact Keeps.of_fail
  exact hkeeps.snd (by rw [NeverReplaced, hchanges]; exact nofun)

end Create

/-! ## Both -/

/-- A directory with the target alone. -/
def sampleMachine : Machine where
  entries := fun name => if name = .target then some 3 else none
  contents := fun file => if file = 3 then [1, 2] else if file = 7 then [9] else []
  clock := 0
  changes := []
  failures := []
  armed := false

/-- The synchronization of the file fails, and so does the first removal of it. -/
def failingSync : Environment where
  created := 5
  isRegularFile := fun _ => true
  interference := fun _ _ => none
  failure := fun operation _ =>
    if operation = .syncAll ∨ operation = .hook .cleanup then some 0 else none

/-- Somebody puts another file under the private name right before the rename. -/
def racingRename : Environment where
  created := 5
  isRegularFile := fun _ => true
  interference := fun operation _ =>
    if operation = .replace then some { name := .privateName 0, entry := some 7 } else none
  failure := fun _ _ => none

end Jet3.Atomic
