import RecruitingOs.Http.App
import RecruitingOs.Lib.InsertionMap
import RecruitingOs.Lib.Transition

/-!
# The rate limiter in memory

`InMemoryRateLimiter` of `src/infrastructure/rate-limit/in-memory-rate-limiter.ts`.  Every key
has a bucket, which counts the calls until `resetAt`.  No more than `maxBuckets` are kept: a
call that adds one too many sweeps the map for a bucket that has expired, and drops the first
bucket of the map if there is none.

So the limit of a key holds as long as its bucket stays (`limit_enforced`): a bucket that has
not expired is only dropped when as many others are stored that have not expired either.
-/

namespace RecruitingOs

open Relational Transition

structure Bucket where
  count : ℕ
  resetAt : ℤ
deriving Repr, DecidableEq

/-- The buckets of all keys. -/
abbrev Buckets := InsertionMap String Bucket

namespace InMemoryRateLimiter

/-! ### The class -/

/-- The loop of `prune`, over the entries that are left, with the size of the map: the entries
that it leaves, and whether it has returned. -/
def sweep (maxBuckets : ℕ) (now : ℤ) : ℕ → List (String × Bucket) → List (String × Bucket) × Bool
  | _, [] => ([], false)
  | size, entry :: rest =>
      let expired := entry.2.resetAt ≤ now
      let size := if expired then size - 1 else size
      let kept := if expired then [] else [entry]
      if size ≤ maxBuckets then (kept ++ rest, true)
      else
        let swept := sweep maxBuckets now size rest
        (kept ++ swept.1, swept.2)

theorem sweep_sublist {maxBuckets size : ℕ} {now : ℤ} {entries : List (String × Bucket)} :
    (sweep maxBuckets now size entries).1.Sublist entries := by
  induction entries generalizing size with
  | nil => exact List.Sublist.refl _
  | cons entry rest ih =>
      unfold sweep
      by_cases hexpired : entry.2.resetAt ≤ now
      · simp only [hexpired, if_true, List.nil_append]
        split
        · exact List.sublist_cons_self _ _
        · exact ih.cons _
      · simp only [hexpired, if_false, List.singleton_append]
        split
        · exact List.Sublist.refl _
        · exact ih.cons_cons _

/-- `this.buckets.delete(first)`, which spares an empty key. -/
def dropFirst (buckets : Buckets) : Buckets :=
  if buckets.keys.head?.any (· ≠ "") then
    buckets.restrict buckets.entries.tail (List.tail_sublist _)
  else buckets

/-- `prune(now)`. -/
def prune (maxBuckets : ℕ) (now : ℤ) (buckets : Buckets) : Buckets :=
  let swept := sweep maxBuckets now buckets.size buckets.entries
  let kept := buckets.restrict swept.1 sweep_sublist
  if swept.2 then kept else dropFirst kept

/-- The bucket that counts a call. -/
def counted (now : ℤ) (key : String) (windowMs : ℕ) (buckets : Buckets) : Bucket :=
  let bucket := ((buckets.get? key).filter fun bucket => ¬ bucket.resetAt ≤ now).getD
    ⟨0, now + windowMs⟩
  { bucket with count := bucket.count + 1 }

/-- `consume(key, limit, windowMs)`; `now` is `Date.now()`. -/
def consume (maxBuckets : ℕ) (now : ℤ) (key : String) (limit windowMs : ℕ) (buckets : Buckets) :
    RateLimitResult × Buckets :=
  let bucket := counted now key windowMs buckets
  let stored := buckets.set key bucket
  let buckets := if maxBuckets < stored.size then prune maxBuckets now stored else stored
  (⟨bucket.count ≤ limit, limit - bucket.count, bucket.resetAt⟩, buckets)

/-- The class as a `RateLimiter`, which the application is built from. -/
def rateLimiter (maxBuckets : ℕ) : RateLimiter Buckets where
  consume now key limit windowMs := fun buckets =>
    let outcome := consume maxBuckets now key limit windowMs buckets
    (.ok outcome.1, outcome.2)

/-! ### Runs -/

/-- A limiter, with the limit and the window that its callers use for each key. -/
structure Policy where
  maxBuckets : ℕ
  limit : String → ℕ
  windowMs : String → ℕ
  maxBuckets_pos : 1 ≤ maxBuckets

/-- A call of `consume`. -/
structure Consume where
  key : String
  now : ℤ
  key_ne : key ≠ ""
deriving DecidableEq

/-- A call with the limit and the window of its key. -/
def serve (policy : Policy) (buckets : Buckets) (call : Consume) : RateLimitResult × Buckets :=
  consume policy.maxBuckets call.now call.key (policy.limit call.key) (policy.windowMs call.key)
    buckets

/-- What a call does to the buckets. -/
def step (policy : Policy) (buckets : Buckets) (call : Consume) : Option Buckets :=
  some (serve policy buckets call).2

/-- How many calls of a key are allowed. -/
def allowedCalls (policy : Policy) (key : String) : Buckets → List Consume → ℕ
  | _, [] => 0
  | buckets, call :: rest =>
      let served := serve policy buckets call
      (if call.key = key ∧ served.1.allowed then 1 else 0) + allowedCalls policy key served.2 rest

/-- A call that opens a bucket: its key has none, or one that has expired. -/
def Opens (buckets : Buckets) (call : Consume) : Prop :=
  ∀ bucket, buckets.get? call.key = some bucket → bucket.resetAt ≤ call.now

/-- **The law of the limiter** on a run: from the call that opens a bucket until its `resetAt`,
as long as `kept` holds, no more calls of the key are allowed than its limit. -/
def Enforced (policy : Policy) (kept : String → Buckets → Prop) (run : List Consume) : Prop :=
  ∀ before call during after buckets, run = before ++ (call :: during) ++ after →
    exec (step policy) .empty before = some buckets → Opens buckets call →
    (∀ later ∈ during, later.now < call.now + policy.windowMs call.key) →
    EveryState (step policy) (kept call.key) (serve policy buckets call).2 during →
    allowedCalls policy call.key buckets (call :: during) ≤ policy.limit call.key

variable {policy : Policy} {buckets : Buckets} {call : Consume} {key : String} {bucket : Bucket}

/-! ### One call -/

/-- A map with one entry too many loses the first that has expired. -/
theorem sweep_full {maxBuckets : ℕ} {now : ℤ} {entries : List (String × Bucket)} :
    sweep maxBuckets now (maxBuckets + 1) entries =
      (entries.eraseP fun entry => entry.2.resetAt ≤ now,
        entries.any fun entry => entry.2.resetAt ≤ now) := by
  induction entries with
  | nil => rfl
  | cons entry rest ih =>
      unfold sweep
      by_cases hexpired : entry.2.resetAt ≤ now
      · simp [hexpired]
      · simp [hexpired, ih]

/-- The map that a call would leave without `prune`. -/
def stored (policy : Policy) (buckets : Buckets) (call : Consume) : Buckets :=
  buckets.set call.key (counted call.now call.key (policy.windowMs call.key) buckets)

theorem serve_eq : (serve policy buckets call).2 =
    if policy.maxBuckets < (stored policy buckets call).size then
      prune policy.maxBuckets call.now (stored policy buckets call)
    else stored policy buckets call := rfl

theorem dropFirst_sublist : (dropFirst buckets).entries.Sublist buckets.entries := by
  unfold dropFirst
  split
  · exact List.tail_sublist _
  · exact List.Sublist.refl _

/-- A call only drops entries besides its own. -/
theorem serve_sublist :
    (serve policy buckets call).2.entries.Sublist (stored policy buckets call).entries := by
  rw [serve_eq]
  split
  · unfold prune
    dsimp only
    split
    · exact sweep_sublist
    · exact dropFirst_sublist.trans sweep_sublist
  · exact List.Sublist.refl _

/-- The states of a run: not too many buckets, and no empty key. -/
structure Bounded (policy : Policy) (buckets : Buckets) : Prop where
  size : buckets.size ≤ policy.maxBuckets
  keys : ∀ key ∈ buckets.keys, key ≠ ""

theorem stored_keys_ne (h : Bounded policy buckets) :
    ∀ key ∈ (stored policy buckets call).keys, key ≠ "" := by
  intro key hkey
  obtain ⟨⟨_, bucket⟩, hentry, rfl⟩ := List.mem_map.mp hkey
  obtain ⟨rfl, -⟩ | ⟨-, hold⟩ := InsertionMap.mem_set.mp hentry
  · exact call.key_ne
  · exact h.keys _ (List.mem_map_of_mem hold)

/-- A call that overflows the map. -/
theorem overflow (h : Bounded policy buckets)
    (hover : policy.maxBuckets < (stored policy buckets call).size) :
    call.key ∉ buckets.keys ∧ buckets.size = policy.maxBuckets ∧
      (stored policy buckets call).size = policy.maxBuckets + 1 := by
  have hsize := h.size
  unfold stored at hover ⊢
  rw [InsertionMap.size_set] at hover ⊢
  split at hover
  · omega
  · rename_i hnew
    rw [if_neg hnew]
    exact ⟨hnew, by omega, by omega⟩

theorem entries_dropFirst : (dropFirst buckets).entries =
    if buckets.keys.head?.any (· ≠ "") then buckets.entries.tail else buckets.entries := by
  unfold dropFirst
  split <;> rfl

/-- What `prune` leaves of a map with one entry too many. -/
theorem entries_prune {maxBuckets : ℕ} {now : ℤ} (hsize : buckets.size = maxBuckets + 1)
    (hkeys : ∀ key ∈ buckets.keys, key ≠ "") :
    (prune maxBuckets now buckets).entries =
      if buckets.entries.any fun entry => entry.2.resetAt ≤ now then
        buckets.entries.eraseP fun entry => entry.2.resetAt ≤ now
      else buckets.entries.tail := by
  have hswept : sweep maxBuckets now buckets.size buckets.entries = _ := hsize ▸ sweep_full
  have hprune : (prune maxBuckets now buckets).entries =
      let swept := sweep maxBuckets now buckets.size buckets.entries
      if swept.2 then swept.1
      else if (swept.1.map Prod.fst).head?.any (· ≠ "") then swept.1.tail else swept.1 := by
    unfold prune
    dsimp only
    split
    · rfl
    · exact entries_dropFirst
  rw [hprune, hswept]
  dsimp only
  by_cases hany : buckets.entries.any fun entry => entry.2.resetAt ≤ now
  · rw [if_pos hany, if_pos hany]
  · have hnone : ∀ entry ∈ buckets.entries, ¬ (decide (entry.2.resetAt ≤ now)) = true := by
      intro entry hentry hexpired
      exact hany (List.any_eq_true.mpr ⟨entry, hentry, hexpired⟩)
    rw [if_neg hany, if_neg hany, List.eraseP_of_forall_not hnone]
    -- the map is not empty, and its first key can be deleted
    obtain ⟨entries, hnodup⟩ := buckets
    cases entries with
    | nil => cases hsize
    | cons first rest =>
        have hfirst : first.1 ≠ "" := hkeys first.1 List.mem_cons_self
        rw [if_pos]
        simpa using hfirst

/-- What an overflow leaves. -/
theorem serve_entries (h : Bounded policy buckets)
    (hover : policy.maxBuckets < (stored policy buckets call).size) :
    (serve policy buckets call).2.entries =
      if (stored policy buckets call).entries.any fun entry => entry.2.resetAt ≤ call.now then
        (stored policy buckets call).entries.eraseP fun entry => entry.2.resetAt ≤ call.now
      else (stored policy buckets call).entries.tail := by
  rw [serve_eq, if_pos hover]
  exact entries_prune (overflow h hover).2.2 (stored_keys_ne h)

/-- A call keeps the bound. -/
theorem Bounded.serve (h : Bounded policy buckets) :
    Bounded policy (serve policy buckets call).2 := by
  refine ⟨?_, fun key hkey => stored_keys_ne h key
    ((serve_sublist.map Prod.fst).subset hkey)⟩
  by_cases hover : policy.maxBuckets < (stored policy buckets call).size
  · have hfull := (overflow h hover).2.2
    unfold InsertionMap.size at hfull ⊢
    rw [serve_entries h hover]
    split
    · rename_i hany
      obtain ⟨entry, hentry, hexpired⟩ := List.any_eq_true.mp hany
      rw [List.length_eraseP_of_mem hentry hexpired, hfull]
      exact Nat.le_refl _
    · rw [List.length_tail, hfull]
      exact Nat.le_refl _
  · rw [serve_eq, if_neg hover]
    exact Nat.le_of_not_lt hover

theorem Bounded.empty : Bounded policy .empty :=
  ⟨Nat.zero_le _, fun _ hkey => absurd hkey List.not_mem_nil⟩

/-! ### Buckets that stay, and buckets that go -/

/-- The bucket of a key that has not expired counts the call. -/
theorem counted_of_live {now : ℤ} {windowMs : ℕ} (hentry : (key, bucket) ∈ buckets.entries)
    (hlive : now < bucket.resetAt) :
    counted now key windowMs buckets = ⟨bucket.count + 1, bucket.resetAt⟩ := by
  unfold counted
  rw [InsertionMap.get?_eq_some.mpr hentry, Option.filter_some, if_pos]
  · rfl
  · simpa using hlive

/-- A call that opens a bucket is the first that it counts. -/
theorem counted_of_opens (h : Opens buckets call) {windowMs : ℕ} :
    counted call.now call.key windowMs buckets = ⟨1, call.now + windowMs⟩ := by
  unfold counted
  cases hget : buckets.get? call.key with
  | none => rfl
  | some bucket =>
      rw [Option.filter_some, if_neg]
      · rfl
      · simpa using h bucket hget

/-- A bucket that has not expired is gone after a call only if the call is for a key without
one, and finds `maxBuckets` of which none has expired; then it is the first one. -/
def EvictedFirst (policy : Policy) (buckets : Buckets) (call : Consume) : Prop :=
  ∀ key bucket, (key, bucket) ∈ buckets.entries → call.now < bucket.resetAt →
    key ∉ (serve policy buckets call).2.keys →
    call.key ∉ buckets.keys ∧ buckets.size = policy.maxBuckets ∧
      (∀ entry ∈ buckets.entries, call.now < entry.2.resetAt) ∧ buckets.keys.head? = some key

/-- An entry of another key is stored as it was. -/
theorem mem_stored (hkey : call.key ∉ buckets.keys) {entry : String × Bucket}
    (hentry : entry ∈ buckets.entries) : entry ∈ (stored policy buckets call).entries := by
  refine InsertionMap.mem_set.mpr (.inr ⟨fun heq => hkey ?_, hentry⟩)
  rw [← heq]
  exact List.mem_map_of_mem hentry

theorem Bounded.evictedFirst (h : Bounded policy buckets) : EvictedFirst policy buckets call := by
  intro key bucket hentry hlive hgone
  have hstored : key ∈ (stored policy buckets call).keys := by
    unfold stored
    rw [InsertionMap.keys_set]
    split
    · exact List.mem_map_of_mem hentry
    · exact List.mem_append_left _ (List.mem_map_of_mem hentry)
  by_cases hover : policy.maxBuckets < (stored policy buckets call).size
  · obtain ⟨hnew, hfull, -⟩ := overflow h hover
    have hgone : key ∉ (InMemoryRateLimiter.serve policy buckets call).2.entries.map Prod.fst :=
      hgone
    rw [serve_entries h hover] at hgone
    split at hgone
    · -- what has expired is deleted, and this bucket has not
      refine absurd (List.mem_map_of_mem (f := Prod.fst) (a := (key, bucket)) ?_) hgone
      exact (List.mem_eraseP_of_neg (by simpa using hlive)).mpr (mem_stored hnew hentry)
    · rename_i hany
      refine ⟨hnew, hfull, fun entry hmem => ?_, ?_⟩
      · by_contra hexpired
        exact hany (List.any_eq_true.mpr
          ⟨entry, mem_stored hnew hmem, decide_eq_true (not_lt.mp hexpired)⟩)
      · have hkeys : (stored policy buckets call).keys = buckets.keys ++ [call.key] := by
          unfold stored
          rw [InsertionMap.keys_set, if_neg hnew]
        rw [List.map_tail] at hgone
        change key ∉ (stored policy buckets call).keys.tail at hgone
        have hmem : key ∈ buckets.keys := List.mem_map_of_mem hentry
        rw [hkeys] at hgone
        cases hbuckets : buckets.keys with
        | nil =>
            rw [hbuckets] at hmem
            cases hmem
        | cons first rest =>
            rw [hbuckets] at hmem hgone
            obtain rfl | hrest := List.mem_cons.mp hmem
            · rfl
            · exact absurd (List.mem_append_left _ hrest) hgone
  · rw [serve_eq, if_neg hover] at hgone
    exact absurd hstored hgone

/-- The bucket of a key that stays in the map goes on counting. -/
theorem entry_of_kept (hkept : key ∈ (serve policy buckets call).2.keys)
    (hentry : (key, bucket) ∈ (stored policy buckets call).entries) :
    (key, bucket) ∈ (serve policy buckets call).2.entries := by
  obtain ⟨⟨_, other⟩, hother, rfl⟩ := List.mem_map.mp hkept
  rwa [InsertionMap.eq_of_mem hentry (serve_sublist.subset hother)]

/-- **The count of a bucket.**  While it stays and has not expired, a bucket allows what its
count leaves of the limit. -/
theorem allowedCalls_le {during : List Consume} (hentry : (key, bucket) ∈ buckets.entries)
    (hlive : ∀ later ∈ during, later.now < bucket.resetAt)
    (hkept : EveryState (step policy) (fun buckets => key ∈ buckets.keys) buckets during) :
    allowedCalls policy key buckets during ≤ policy.limit key - bucket.count := by
  induction during generalizing buckets bucket with
  | nil => exact Nat.zero_le _
  | cons call rest ih =>
      obtain ⟨-, hrest⟩ := hkept
      have hrest := hrest _ rfl
      have hnow := hlive call List.mem_cons_self
      have hlater := fun later hmem => hlive later (List.mem_cons_of_mem call hmem)
      unfold allowedCalls
      dsimp only
      by_cases hkey : call.key = key
      · subst hkey
        have hstored : (call.key, (⟨bucket.count + 1, bucket.resetAt⟩ : Bucket)) ∈
            (stored policy buckets call).entries :=
          InsertionMap.mem_set.mpr (.inl ⟨rfl, (counted_of_live hentry hnow).symm⟩)
        have hcount := ih (entry_of_kept hrest.head hstored) hlater hrest
        have hallowed : (serve policy buckets call).1.allowed =
            decide (bucket.count + 1 ≤ policy.limit call.key) := by
          unfold serve consume
          rw [counted_of_live hentry hnow]
        dsimp only at hcount
        rw [hallowed]
        split
        · rename_i hboth
          have hlimit := of_decide_eq_true hboth.2
          omega
        · omega
      · have hstored : (key, bucket) ∈ (stored policy buckets call).entries :=
          InsertionMap.mem_set.mpr (.inr ⟨fun heq => hkey heq.symm, hentry⟩)
        rw [if_neg fun hboth => hkey hboth.1, Nat.zero_add]
        exact ih (entry_of_kept hrest.head hstored) hlater hrest

/-! ### Runs keep the limit -/

theorem enforced_while_kept (policy : Policy) (run : List Consume) :
    Enforced policy (fun key buckets => key ∈ buckets.keys) run := by
  rintro before call during after buckets - - hopens hlater hkept
  have hstored : (call.key, (⟨1, call.now + policy.windowMs call.key⟩ : Bucket)) ∈
      (stored policy buckets call).entries :=
    InsertionMap.mem_set.mpr (.inl ⟨rfl, (counted_of_opens hopens).symm⟩)
  have hcount := allowedCalls_le (entry_of_kept hkept.head hstored) hlater hkept
  have hallowed : (serve policy buckets call).1.allowed =
      decide (1 ≤ policy.limit call.key) := by
    unfold serve consume
    rw [counted_of_opens hopens]
  unfold allowedCalls
  dsimp only at hcount ⊢
  rw [hallowed]
  split
  · rename_i hboth
    have hlimit := of_decide_eq_true hboth.2
    omega
  · omega

/-- **The limiter.**  On every run no more than `maxBuckets` are stored after a call, the limit
of a key holds from the opening of a bucket to its `resetAt` as long as the bucket is stored,
and a bucket that has not expired is only dropped, as the first one, by a call for a new key
that finds `maxBuckets` of them. -/
theorem limit_enforced (policy : Policy) (run : List Consume) :
    EveryState (step policy) (fun buckets => buckets.size ≤ policy.maxBuckets) .empty run ∧
      Enforced policy (fun key buckets => key ∈ buckets.keys) run ∧
      EveryStep (step policy) (EvictedFirst policy) .empty run := by
  have hkeep : ∀ buckets call next, Bounded policy buckets → True →
      step policy buckets call = some next → Bounded policy next := by
    rintro buckets call next h - hstep
    obtain rfl := Option.some.inj hstep
    exact h.serve
  refine ⟨?_, enforced_while_kept policy run, ?_⟩
  · exact (everyState_of_everyStep hkeep .empty (everyStep_trivial _ _)).mono fun _ h => h.size
  · exact everyStep_of_everyStep (fun buckets call next h htrivial hstep =>
      ⟨hkeep buckets call next h htrivial hstep, h.evictedFirst⟩) .empty (everyStep_trivial _ _)

/-- One bucket, one call a minute. -/
def onePerMinute : Policy := ⟨1, fun _ => 1, fun _ => 60000, Nat.le_refl 1⟩

def aliceAt (now : ℤ) : Consume := ⟨"user:t:alice", now, by decide⟩

def bobAt (now : ℤ) : Consume := ⟨"user:t:bob", now, by decide⟩

/-- The call of another key between two calls drops the bucket, and both are allowed. -/
theorem limit_exceeded :
    ¬ Enforced onePerMinute (fun _ _ => True) [aliceAt 0, bobAt 1, aliceAt 2] := by
  intro h
  have hlimit : allowedCalls onePerMinute "user:t:alice" .empty [aliceAt 0, bobAt 1, aliceAt 2] ≤
      1 := by
    refine h [] (aliceAt 0) [bobAt 1, aliceAt 2] [] .empty rfl rfl ?_ ?_ ?_
    · rintro bucket hbucket
      cases hbucket
    · intro later hlater
      obtain rfl | rfl : later = bobAt 1 ∨ later = aliceAt 2 := by simpa using hlater
      · decide
      · decide
    · exact ⟨trivial, fun _ _ => ⟨trivial, fun _ _ => trivial⟩⟩
  exact absurd hlimit (by decide +kernel)

end InMemoryRateLimiter

end RecruitingOs
