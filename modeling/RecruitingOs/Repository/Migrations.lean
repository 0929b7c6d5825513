import Mathlib.Data.List.Infix
import Mathlib.Data.List.Lex
import Mathlib.Data.List.Sort
import RecruitingOs.Lib.Transition
import RecruitingOs.Lib.Utf16

/-!
# Migrations

`migrate` of `src/infrastructure/database/postgres/migrate.ts`, called by any number of processes,
each of which may crash between any two of its queries.  A crash rolls the open transaction back
and gives up the advisory lock, since both belong to the session.

A migration is opaque: `apply file` is what its text does to the schema, or `none` where it fails.
`MigrationStore.log` is not stored: it remembers the migrations that have been committed, in order.

Each migration is committed at most once, and the schema is that of the committed migrations, whole
ones only (`migrations_applied`).  A call that returns has them all in.  As long as files are only
added behind the others, the committed ones are an initial part of the list, whoever committed them.
-/

namespace RecruitingOs

/-- `/^\d+.*\.sql$/.test(file) && !file.endsWith('.down.sql')`. -/
def isMigration (file : String) : Bool :=
  file.toList.head?.any Char.isDigit ∧ ".sql".toList.isSuffixOf file.toList ∧
    file.toList.all (fun c => c ∉ ['\n', '\r', '\u2028', '\u2029']) ∧
    ¬ ".down.sql".toList.isSuffixOf file.toList

/-- The order of `sort()`. -/
def sortsBefore (a b : String) : Prop :=
  (Utf16.of a).map UInt16.toNat ≤ (Utf16.of b).map UInt16.toNat

instance : DecidableRel sortsBefore := fun a b =>
  inferInstanceAs (Decidable ((Utf16.of a).map UInt16.toNat ≤ (Utf16.of b).map UInt16.toNat))

/-- The files of a directory that are to be applied. -/
def migrationFiles (directory : List String) : List String :=
  (directory.filter isMigration).insertionSort sortsBefore

/-- What the calls share: the session that holds the lock, the rows of `schema_migrations`, where
the table exists, and the schema. -/
structure MigrationStore (σ : Type) where
  lock : Option ℕ
  versions : Option (List String)
  schema : σ
  log : List String

/-- How far a call has come.  In a transaction, `staged` is the schema that it would commit. -/
inductive MigratePhase (σ : Type) where
  | waiting
  | creating
  | reading
  | looping (applied files : List String)
  | executing (applied : List String) (file : String) (files : List String)
  | recording (applied : List String) (file : String) (files : List String) (staged : σ)
  | committing (applied : List String) (file : String) (files : List String) (staged : σ)
  | unlocking (returns : Bool)
  | finished (returns : Bool)
  | crashed

/-- A call holds the lock from `pg_advisory_lock` to `pg_advisory_unlock`. -/
def MigratePhase.holds {σ : Type} : MigratePhase σ → Bool
  | .waiting | .finished _ | .crashed => false
  | _ => true

def MigratePhase.returned {σ : Type} : MigratePhase σ → Bool
  | .finished returns => returns
  | _ => false

/-- A call of `migrate`, with the names in its directory. -/
structure MigrateCall (σ : Type) where
  directory : List String
  phase : MigratePhase σ

structure MigrateRun (σ : Type) where
  store : MigrationStore σ
  calls : List (MigrateCall σ)

inductive MigrateStep where
  | start (directory : List String)
  /-- The `i`-th call takes its next step. -/
  | advance (i : ℕ)
  | crash (i : ℕ)

namespace MigrateRun

variable {σ : Type} (apply : String → σ → Option σ)

/-- The next step of the `i`-th call. -/
def next (i : ℕ) (directory : List String) (store : MigrationStore σ) :
    MigratePhase σ → Option (MigratePhase σ × MigrationStore σ)
  | .waiting => if store.lock = none then some (.creating, { store with lock := some i }) else none
  | .creating => some (.reading, { store with versions := some (store.versions.getD []) })
  | .reading => some (.looping (store.versions.getD []) (migrationFiles directory), store)
  | .looping _ [] => some (.unlocking true, store)
  | .looping applied (file :: files) =>
      if file ∈ applied then some (.looping applied files, store)
      else some (.executing applied file files, store)
  | .executing applied file files =>
      match apply file store.schema with
      | none => some (.unlocking false, store)
      | some staged => some (.recording applied file files staged, store)
  | .recording applied file files staged =>
      -- the primary key of `schema_migrations`
      if store.versions.all (file ∉ ·) then some (.committing applied file files staged, store)
      else some (.unlocking false, store)
  | .committing applied file files staged =>
      some (.looping applied files,
        { store with
          versions := some (store.versions.getD [] ++ [file])
          schema := staged
          log := store.log ++ [file] })
  | .unlocking returns => some (.finished returns, { store with lock := none })
  | .finished _ | .crashed => none

variable (s : MigrateRun σ)

def advance (i : ℕ) : Option (MigrateRun σ) :=
  (s.calls[i]?).bind fun call =>
    (next apply i call.directory s.store call.phase).map fun out =>
      ⟨out.2, s.calls.set i { call with phase := out.1 }⟩

/-- The process or its connection is lost. -/
def crash (i : ℕ) : Option (MigrateRun σ) :=
  (s.calls[i]?).map fun call =>
    ⟨{ s.store with lock := if s.store.lock = some i then none else s.store.lock },
      s.calls.set i { call with phase := .crashed }⟩

def step : MigrateStep → Option (MigrateRun σ)
  | .start directory => some { s with calls := s.calls ++ [⟨directory, .waiting⟩] }
  | .advance i => s.advance apply i
  | .crash i => s.crash i

/-- A database that has not been migrated. -/
def fresh (schema : σ) : MigrateRun σ := ⟨⟨none, none, schema, []⟩, []⟩

/-- The states of all runs, from an empty schema. -/
def Reached (initial : σ) : MigrateRun σ → Prop :=
  Transition.Reachable (fun s => s = fresh initial) fun s => step apply s

/-! ### The invariant -/

variable {apply} {s} {t : MigrateRun σ} {initial : σ}

/-- How far the loop has come: the files before are committed. -/
def Passed (log directory files : List String) : Prop :=
  ∃ before, migrationFiles directory = before ++ files ∧ ∀ file ∈ before, file ∈ log

/-- What a call relies on in its phase. -/
def Progress (apply : String → σ → Option σ) (store : MigrationStore σ) (directory : List String) :
    MigratePhase σ → Prop
  | .looping applied files =>
      (∀ file ∈ applied, file ∈ store.log) ∧ Passed store.log directory files
  | .executing applied file files =>
      (∀ file ∈ applied, file ∈ store.log) ∧ Passed store.log directory (file :: files)
  | .recording applied file files staged =>
      (∀ file ∈ applied, file ∈ store.log) ∧ Passed store.log directory (file :: files) ∧
        apply file store.schema = some staged
  | .committing applied file files staged =>
      (∀ file ∈ applied, file ∈ store.log) ∧ Passed store.log directory (file :: files) ∧
        apply file store.schema = some staged ∧ file ∉ store.log
  | .unlocking true | .finished true => ∀ file ∈ migrationFiles directory, file ∈ store.log
  | _ => True

/-- What the store is. -/
structure Sound (apply : String → σ → Option σ) (initial : σ) (store : MigrationStore σ) : Prop where
  versions : store.versions.getD [] = store.log
  once : store.log.Nodup
  schema : store.log.foldlM (fun schema file => apply file schema) initial = some store.schema

/-- What holds in every state of every run. -/
structure Inv (apply : String → σ → Option σ) (initial : σ) (s : MigrateRun σ) : Prop where
  sound : Sound apply initial s.store
  /-- Only the session with the lock is between `lock` and `unlock`. -/
  holder : ∀ i call, s.calls[i]? = some call → call.phase.holds → s.store.lock = some i
  progress : ∀ call ∈ s.calls, Progress apply s.store call.directory call.phase

theorem Passed.nil {log directory : List String} (h : Passed log directory []) :
    ∀ file ∈ migrationFiles directory, file ∈ log := by
  obtain ⟨before, heq, hbefore⟩ := h
  rw [heq, List.append_nil]
  exact hbefore

theorem Passed.cons {log directory files : List String} {file : String}
    (h : Passed log directory (file :: files)) (hfile : file ∈ log) :
    Passed log directory files := by
  obtain ⟨before, heq, hbefore⟩ := h
  refine ⟨before ++ [file], by rw [heq, List.append_assoc]; rfl, fun other hother => ?_⟩
  rcases List.mem_append.mp hother with hold | hnew
  · exact hbefore other hold
  · rw [List.mem_singleton.mp hnew]
    exact hfile

theorem Passed.mono {log log' directory files : List String} (hlog : ∀ file ∈ log, file ∈ log')
    (h : Passed log directory files) : Passed log' directory files := by
  obtain ⟨before, heq, hbefore⟩ := h
  exact ⟨before, heq, fun file hfile => hlog file (hbefore file hfile)⟩

/-- A call without the lock relies on what stays: that migrations are in. -/
theorem Progress.mono {store store' : MigrationStore σ} {directory : List String}
    {phase : MigratePhase σ} (hlog : ∀ file ∈ store.log, file ∈ store'.log)
    (hholds : phase.holds = false) (h : Progress apply store directory phase) :
    Progress apply store' directory phase := by
  cases phase with
  | waiting => trivial
  | crashed => trivial
  | finished returns =>
      cases returns with
      | false => trivial
      | true => exact fun file hfile => hlog file (h file hfile)
  | _ => cases hholds

/-- **One step of a call**: what it leaves of the store, and what the call relies on next. -/
structure NextEffect (apply : String → σ → Option σ) (initial : σ) (i : ℕ)
    (directory : List String) (store : MigrationStore σ) (phase : MigratePhase σ)
    (out : MigratePhase σ × MigrationStore σ) : Prop where
  sound : Sound apply initial out.2
  progress : Progress apply out.2 directory out.1
  grows : ∀ file ∈ store.log, file ∈ out.2.log
  lock : (out.2.lock = store.lock ∧ out.1.holds ∧ phase.holds) ∨
    (store.lock = none ∧ out.2.lock = some i) ∨
    (phase.holds ∧ out.2.lock = none ∧ out.1.holds = false)

theorem next_effect {i : ℕ} {directory : List String} {store : MigrationStore σ}
    {phase : MigratePhase σ} {out : MigratePhase σ × MigrationStore σ}
    (hsound : Sound apply initial store) (hprogress : Progress apply store directory phase)
    (hnext : next apply i directory store phase = some out) :
    NextEffect apply initial i directory store phase out := by
  have hsame : ∀ file ∈ store.log, file ∈ store.log := fun _ h => h
  cases phase with
  | waiting =>
      obtain ⟨hlock, heq⟩ := Option.ite_none_right_eq_some.mp hnext
      cases heq
      exact ⟨⟨hsound.versions, hsound.once, hsound.schema⟩, trivial, hsame, .inr (.inl ⟨hlock, rfl⟩)⟩
  | creating =>
      cases hnext
      exact ⟨⟨hsound.versions, hsound.once, hsound.schema⟩, trivial, hsame, .inl ⟨rfl, rfl, rfl⟩⟩
  | reading =>
      cases hnext
      refine ⟨hsound, ⟨?_, [], rfl, fun _ h => nomatch h⟩, hsame, .inl ⟨rfl, rfl, rfl⟩⟩
      rw [hsound.versions]
      exact hsame
  | looping applied files =>
      cases files with
      | nil =>
          cases hnext
          exact ⟨hsound, hprogress.2.nil, hsame, .inl ⟨rfl, rfl, rfl⟩⟩
      | cons file files =>
          simp only [next] at hnext
          split at hnext
          · rename_i hfile
            cases hnext
            exact ⟨hsound, ⟨hprogress.1, hprogress.2.cons (hprogress.1 file hfile)⟩, hsame,
              .inl ⟨rfl, rfl, rfl⟩⟩
          · cases hnext
            exact ⟨hsound, hprogress, hsame, .inl ⟨rfl, rfl, rfl⟩⟩
  | executing applied file files =>
      simp only [next] at hnext
      split at hnext
      · cases hnext
        exact ⟨hsound, trivial, hsame, .inl ⟨rfl, rfl, rfl⟩⟩
      · rename_i staged hstaged
        cases hnext
        exact ⟨hsound, ⟨hprogress.1, hprogress.2, hstaged⟩, hsame, .inl ⟨rfl, rfl, rfl⟩⟩
  | recording applied file files staged =>
      simp only [next] at hnext
      split at hnext
      · rename_i hfresh
        cases hnext
        refine ⟨hsound, ⟨hprogress.1, hprogress.2.1, hprogress.2.2, ?_⟩, hsame,
          .inl ⟨rfl, rfl, rfl⟩⟩
        rw [← hsound.versions]
        cases hversions : store.versions with
        | none => exact List.not_mem_nil
        | some versions =>
            rw [hversions] at hfresh
            exact of_decide_eq_true hfresh
      · cases hnext
        exact ⟨hsound, trivial, hsame, .inl ⟨rfl, rfl, rfl⟩⟩
  | committing applied file files staged =>
      cases hnext
      obtain ⟨happlied, hpassed, hstaged, hfresh⟩ := hprogress
      have hgrows : ∀ other ∈ store.log, other ∈ store.log ++ [file] :=
        fun other hother => List.mem_append_left _ hother
      refine ⟨⟨?_, ?_, ?_⟩, ⟨fun other hother => hgrows other (happlied other hother), ?_⟩, hgrows,
        .inl ⟨rfl, rfl, rfl⟩⟩
      · show store.versions.getD [] ++ [file] = store.log ++ [file]
        rw [hsound.versions]
      · exact List.nodup_append.mpr ⟨hsound.once, List.nodup_singleton _, fun a ha b hb => by
          rw [List.mem_singleton.mp hb]
          rintro rfl
          exact hfresh ha⟩
      · show (store.log ++ [file]).foldlM _ initial = some staged
        rw [List.foldlM_append, hsound.schema]
        show (apply file store.schema).bind some = some staged
        rw [hstaged]
        rfl
      · exact (hpassed.mono hgrows).cons (List.mem_append_right _ (List.mem_singleton.mpr rfl))
  | unlocking returns =>
      cases hnext
      refine ⟨⟨hsound.versions, hsound.once, hsound.schema⟩, ?_, hsame, .inr (.inr ⟨rfl, rfl, rfl⟩)⟩
      cases returns with
      | false => trivial
      | true => exact hprogress
  | finished returns => cases hnext
  | crashed => cases hnext

/-! ### Every run -/

theorem inv_fresh : (fresh initial).Inv apply initial where
  sound := ⟨rfl, List.nodup_nil, rfl⟩
  holder := fun _ _ h => nomatch h
  progress := fun _ h => nomatch h

/-- A call of the run after one call has moved. -/
theorem getElem?_moved {calls : List (MigrateCall σ)} {i j : ℕ} {call moved other : MigrateCall σ}
    (hi : calls[i]? = some call) (h : (calls.set i moved)[j]? = some other) :
    (j = i ∧ other = moved) ∨ (j ≠ i ∧ calls[j]? = some other) := by
  have hlt : i < calls.length := (List.getElem?_eq_some_iff.mp hi).1
  by_cases hsame : i = j
  · subst hsame
    rw [List.getElem?_set_self hlt] at h
    exact .inl ⟨rfl, (Option.some.inj h).symm⟩
  · rw [List.getElem?_set_ne hsame] at h
    exact .inr ⟨fun heq => hsame heq.symm, h⟩

theorem Inv.advance {i : ℕ} (h : s.Inv apply initial) (hstep : s.advance apply i = some t) :
    t.Inv apply initial := by
  obtain ⟨call, hi, hstep⟩ := Option.bind_eq_some_iff.mp hstep
  obtain ⟨out, hout, rfl⟩ := Option.map_eq_some_iff.mp hstep
  have hcall : call ∈ s.calls := List.mem_of_getElem? hi
  have heffect := next_effect h.sound (h.progress call hcall) hout
  -- the others do not hold the lock
  have hothers : ∀ j other, j ≠ i → s.calls[j]? = some other → other.phase.holds = false := by
    intro j other hne hj
    refine Bool.eq_false_iff.mpr fun hholds => ?_
    have hlock := h.holder j other hj hholds
    rcases heffect.lock with ⟨-, -, hown⟩ | ⟨hfree, -⟩ | ⟨hown, -⟩
    · exact hne (Option.some.inj (hlock.symm.trans (h.holder i call hi hown)))
    · rw [hfree] at hlock
      cases hlock
    · exact hne (Option.some.inj (hlock.symm.trans (h.holder i call hi hown)))
  refine ⟨heffect.sound, fun j other hj hholds => ?_, fun other hother => ?_⟩
  · rcases getElem?_moved hi hj with ⟨rfl, rfl⟩ | ⟨hne, hj⟩
    · rcases heffect.lock with ⟨hlock, -, hown⟩ | ⟨-, hlock⟩ | ⟨-, -, hreleased⟩
      · exact hlock.trans (h.holder j call hi hown)
      · exact hlock
      · rw [hreleased] at hholds
        cases hholds
    · rw [hothers j other hne hj] at hholds
      cases hholds
  · obtain ⟨j, hj⟩ := List.mem_iff_getElem?.mp hother
    rcases getElem?_moved hi hj with ⟨-, rfl⟩ | ⟨hne, hj⟩
    · exact heffect.progress
    · exact (h.progress other (List.mem_of_getElem? hj)).mono heffect.grows (hothers j other hne hj)

theorem Inv.crash {i : ℕ} (h : s.Inv apply initial) (hstep : s.crash i = some t) :
    t.Inv apply initial := by
  obtain ⟨call, hi, rfl⟩ := Option.map_eq_some_iff.mp hstep
  refine ⟨⟨h.sound.versions, h.sound.once, h.sound.schema⟩, fun j other hj hholds => ?_,
    fun other hother => ?_⟩
  · rcases getElem?_moved hi hj with ⟨-, rfl⟩ | ⟨hne, hj⟩
    · cases hholds
    · have hlock := h.holder j other hj hholds
      show (if s.store.lock = some i then none else s.store.lock) = some j
      rw [hlock, if_neg fun heq => hne (Option.some.inj heq)]
  · obtain ⟨j, hj⟩ := List.mem_iff_getElem?.mp hother
    rcases getElem?_moved hi hj with ⟨-, rfl⟩ | ⟨-, hj⟩
    · trivial
    · have hprogress := h.progress other (List.mem_of_getElem? hj)
      cases hphase : other.phase with
      | unlocking returns =>
          rw [hphase] at hprogress
          cases returns <;> exact hprogress
      | finished returns =>
          rw [hphase] at hprogress
          cases returns <;> exact hprogress
      | _ =>
          rw [hphase] at hprogress
          exact hprogress

theorem Inv.start {directory : List String} (h : s.Inv apply initial) :
    Inv apply initial { s with calls := s.calls ++ [⟨directory, .waiting⟩] } := by
  refine { h with holder := fun j call hj hholds => ?_, progress := fun call hcall => ?_ }
  · rw [List.getElem?_append] at hj
    split at hj
    · exact h.holder j call hj hholds
    · rw [List.mem_singleton.mp (List.mem_of_getElem? hj)] at hholds
      cases hholds
  · rcases List.mem_append.mp hcall with hold | hnew
    · exact h.progress call hold
    · rw [List.mem_singleton.mp hnew]
      trivial

theorem Reached.inv (h : Reached apply initial s) : s.Inv apply initial := by
  refine Transition.Reachable.invariant ?_ ?_ h
  · rintro s rfl
    exact inv_fresh
  · intro s label t _ hs hstep
    cases label with
    | start directory =>
        cases hstep
        exact hs.start
    | advance i => exact hs.advance hstep
    | crash i => exact hs.crash hstep

/-! ### The order -/

/-- The next file of a call is the one behind the committed files, if both lists are initial parts
of one list. -/
theorem append_prefix_of_passed {log files all before : List String} {file : String}
    (hall : all.Nodup) (hlog : log <+: all) (hfresh : file ∉ log) (hbefore : ∀ f ∈ before, f ∈ log)
    (hfiles : before ++ file :: files <+: all) : log ++ [file] <+: all := by
  have hfront : before ++ [file] <+: all := by
    refine List.IsPrefix.trans ⟨files, ?_⟩ hfiles
    rw [List.append_assoc]
    rfl
  have hbeforeAll : before <+: all := (List.prefix_append before [file]).trans hfront
  obtain rfl : log = before := by
    rcases List.prefix_or_prefix_of_prefix hlog hbeforeAll with hshort | hshort
    · -- `before` has no more than what is committed
      obtain ⟨rest, rfl⟩ := hshort
      cases rest with
      | nil => exact (List.append_nil log).symm
      | cons next rest =>
          have hnodup := hall.sublist hbeforeAll.sublist
          have hmem : next ∈ log := hbefore next (List.mem_append_right _ List.mem_cons_self)
          exact absurd rfl
            ((List.nodup_append.mp hnodup).2.2 next hmem next List.mem_cons_self)
    · -- the next committed file would be this one
      obtain ⟨rest, rfl⟩ := hshort
      cases rest with
      | nil => exact List.append_nil before
      | cons next rest =>
          obtain rfl : next = file := by
            obtain ⟨restA, hA⟩ := hlog
            obtain ⟨restB, hB⟩ := hfront
            rw [← hA, List.append_assoc, List.append_assoc] at hB
            exact (List.cons.inj (List.append_cancel_left hB)).1.symm
          exact absurd (List.mem_append_right _ List.mem_cons_self) hfresh
  exact hfront

/-- A step commits the file of its call, or nothing. -/
theorem next_log {i : ℕ} {directory : List String} {store : MigrationStore σ}
    {phase : MigratePhase σ} {out : MigratePhase σ × MigrationStore σ}
    (hnext : next apply i directory store phase = some out) : out.2.log = store.log ∨
      ∃ applied file files staged, phase = .committing applied file files staged ∧
        out.2.log = store.log ++ [file] := by
  cases phase with
  | waiting =>
      obtain ⟨-, heq⟩ := Option.ite_none_right_eq_some.mp hnext
      cases heq
      exact .inl rfl
  | looping applied files =>
      cases files with
      | nil =>
          cases hnext
          exact .inl rfl
      | cons file files =>
          simp only [next] at hnext
          split at hnext <;> cases hnext <;> exact .inl rfl
  | executing applied file files =>
      simp only [next] at hnext
      split at hnext <;> cases hnext <;> exact .inl rfl
  | recording applied file files staged =>
      simp only [next] at hnext
      split at hnext <;> cases hnext <;> exact .inl rfl
  | committing applied file files staged =>
      cases hnext
      exact .inr ⟨applied, file, files, staged, rfl, rfl⟩
  | finished returns => cases hnext
  | crashed => cases hnext
  | _ =>
      cases hnext
      exact .inl rfl

/-- A call keeps its directory. -/
theorem directory_moved {calls : List (MigrateCall σ)} {i : ℕ} {call other : MigrateCall σ}
    (phase : MigratePhase σ) (hi : calls[i]? = some call) (h : other ∈ calls) :
    ∃ moved ∈ calls.set i { call with phase := phase }, moved.directory = other.directory := by
  obtain ⟨j, hj⟩ := List.mem_iff_getElem?.mp h
  by_cases hsame : i = j
  · subst hsame
    obtain rfl : call = other := Option.some.inj (hi.symm.trans hj)
    have hlt : i < calls.length := (List.getElem?_eq_some_iff.mp hi).1
    exact ⟨_, List.mem_of_getElem? (List.getElem?_set_self hlt), rfl⟩
  · refine ⟨other, List.mem_of_getElem? (i := j) ?_, rfl⟩
    rw [List.getElem?_set_ne hsame]
    exact hj

theorem log_prefix (h : Reached apply initial s) {all : List String} (hall : all.Nodup)
    (hfiles : ∀ call ∈ s.calls, migrationFiles call.directory <+: all) : s.store.log <+: all := by
  refine Transition.Reachable.invariant (I := fun u : MigrateRun σ =>
    (∀ call ∈ u.calls, migrationFiles call.directory <+: all) → u.store.log <+: all) ?_ ?_ h hfiles
  · rintro s rfl -
    exact List.nil_prefix
  · intro s label t hs ih hstep hfiles
    cases label with
    | start directory =>
        cases hstep
        exact ih fun call hcall => hfiles call (List.mem_append_left _ hcall)
    | advance i =>
        obtain ⟨call, hi, hstep⟩ := Option.bind_eq_some_iff.mp hstep
        obtain ⟨out, hout, rfl⟩ := Option.map_eq_some_iff.mp hstep
        have hbefore : ∀ other ∈ s.calls, migrationFiles other.directory <+: all := by
          intro other hother
          obtain ⟨moved, hmoved, hdirectory⟩ := directory_moved out.1 hi hother
          exact hdirectory ▸ hfiles moved hmoved
        have hcall : call ∈ s.calls := List.mem_of_getElem? hi
        show out.2.log <+: all
        rcases next_log hout with hlog | ⟨applied, file, files, staged, hphase, hlog⟩
        · rw [hlog]
          exact ih hbefore
        · rw [hlog]
          have hprogress := (Reached.inv hs).progress call hcall
          rw [hphase] at hprogress
          obtain ⟨-, ⟨before, hsplit, hin⟩, -, hfresh⟩ := hprogress
          exact append_prefix_of_passed hall (ih hbefore) hfresh hin (hsplit ▸ hbefore call hcall)
    | crash i =>
        obtain ⟨call, hi, rfl⟩ := Option.map_eq_some_iff.mp hstep
        refine ih fun other hother => ?_
        obtain ⟨moved, hmoved, hdirectory⟩ := directory_moved .crashed hi hother
        exact hdirectory ▸ hfiles moved hmoved

/-- **Migrations.**  In every state of every run each migration was committed at most once, the
table lists the committed ones in order, and the schema is what they come to, none of them in part.
A call that has returned has all its files in; and as long as the files of every call are an initial
part of one list, the committed ones are an initial part of it. -/
theorem migrations_applied (h : Reached apply initial s) :
    s.store.log.Nodup ∧ s.store.versions.getD [] = s.store.log ∧
      s.store.log.foldlM (fun schema file => apply file schema) initial = some s.store.schema ∧
      (∀ call ∈ s.calls, call.phase.returned →
        ∀ file ∈ call.directory, isMigration file → file ∈ s.store.log) ∧
      ∀ all : List String, all.Nodup →
        (∀ call ∈ s.calls, migrationFiles call.directory <+: all) → s.store.log <+: all := by
  have hinv := h.inv
  refine ⟨hinv.sound.once, hinv.sound.versions, hinv.sound.schema, fun call hcall hreturned => ?_,
    fun all hall hfiles => log_prefix h hall hfiles⟩
  have hprogress := hinv.progress call hcall
  cases hphase : call.phase with
  | finished returns =>
      rw [hphase] at hprogress hreturned
      obtain rfl : returns = true := hreturned
      intro file hfile hmigration
      exact hprogress file
        ((List.mem_insertionSort _).mpr (List.mem_filter.mpr ⟨hfile, hmigration⟩))
  | _ =>
      rw [hphase] at hreturned
      cases hreturned

/-- The files of two releases. -/
def firstRelease : List String := ["001_initial.sql", "001_initial.down.sql"]

def secondRelease : List String := ["002_operations.sql", "README.md", "001_initial.sql"]

/-- The first process crashes inside its transaction, and the second goes on. -/
def crashedMigration : MigrateRun ℕ :=
  (Transition.exec (fun s => step (fun _ n => some (n + 1)) s) (fresh 0)
    ([.start firstRelease, .start secondRelease] ++
      List.replicate 5 (.advance 0) ++ [.crash 0] ++ List.replicate 13 (.advance 1))).get
    (by decide +kernel)

theorem migrations_applied_crashed : crashedMigration.store.log.Nodup ∧
    ∀ file ∈ secondRelease, isMigration file → file ∈ crashedMigration.store.log := by
  have hreached : Reached (fun _ n => some (n + 1)) 0 crashedMigration :=
    Transition.Reachable.of_exec (.start rfl) (Option.some_get _).symm
  obtain ⟨hnodup, -, -, hreturned, -⟩ := migrations_applied hreached
  obtain ⟨call, hcall, hphase, hdirectory⟩ : ∃ call ∈ crashedMigration.calls,
      call.phase.returned ∧ call.directory = secondRelease := by
    decide +kernel
  exact ⟨hnodup, hdirectory ▸ hreturned call hcall hphase⟩

end MigrateRun

end RecruitingOs