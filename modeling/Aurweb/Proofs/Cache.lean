/-
How old a cached answer can be.

A call that finds nothing asks the database, sets the key and lets it expire, and others do the
same in between.  `Fresh` is what survives any of it: the entry of a key was right at some time,
it does not outlive that time by more than the calls may take and the key may be kept, and as
long as it has no time to expire the call that set it is still there to give it one.  A call that
never comes to that leaves an entry for good, which is `answers_held`.
-/
import Aurweb.Cache
import Aurweb.Lib.Run

namespace Aurweb.Cache

variable {ν : Type}

/-! ### Calls that are in time -/

/-- When a job asked the database. -/
def Stage.since : Stage ν → Option Int
  | .missed _ => none
  | .computed _ since | .stored _ since => some since

def Stage.isStored : Stage ν → Bool
  | .stored _ _ => true
  | _ => false

/-- No job takes longer than `delay` from asking the database to returning. -/
def InTime (delay : Int) (s : State ν) (now : Int) : Prop :=
  ∀ job ∈ s.jobs, ∀ since ∈ job.stage.since, now ≤ since + delay

/-- The answer is to be kept for some time, and for no more than `kept`. -/
def Call.Expires (kept : Int) (call : Call) : Prop :=
  ∃ ex ∈ call.expire, 0 < ex ∧ ex ≤ kept

/-- Every call is for an answer that expires, and goes through with it in time: it comes to no
end between `SET` and `EXPIRE`. -/
def Punctual (delay kept : Int) (s : State ν) : Event → Prop
  | .ask call _ now => InTime delay s now ∧ call.Expires kept
  | .proceed _ now => InTime delay s now
  | .abandon i now => InTime delay s now ∧ ∀ job ∈ s.jobs[i]?, job.stage.isStored = false

instance (delay : Int) (s : State ν) (now : Int) : Decidable (InTime delay s now) :=
  inferInstanceAs (Decidable (∀ job ∈ s.jobs, ∀ since ∈ job.stage.since, _))

instance (kept : Int) (call : Call) : Decidable (call.Expires kept) :=
  inferInstanceAs (Decidable (∃ ex ∈ call.expire, _))

instance (delay kept : Int) (s : State ν) : ∀ e, Decidable (Punctual delay kept s e)
  | .ask _ _ _ => inferInstanceAs (Decidable (_ ∧ _))
  | .proceed _ now => inferInstanceAs (Decidable (InTime delay s now))
  | .abandon _ _ => inferInstanceAs (Decidable (_ ∧ ∀ job ∈ s.jobs[_]?, _))

theorem Punctual.inTime {delay kept : Int} {s : State ν} {e : Event}
    (h : Punctual delay kept s e) : InTime delay s e.now := by
  cases e with
  | ask => exact h.1
  | proceed => exact h
  | abandon => exact h.1

/-! ### Jobs -/

section

variable {s : State ν} {i : Nat} {job job' : Job ν}

theorem mem_drop (h : job ∈ (s.drop i).jobs) : job ∈ s.jobs := List.mem_of_mem_eraseIdx h

theorem mem_stage {stage : Stage ν} (h : job' ∈ (s.stage i job stage).jobs) :
    job' ∈ s.jobs ∨ job' = { job with stage } := List.mem_or_eq_of_mem_set h

/-- Another job is still there. -/
theorem mem_drop_of_ne (hi : s.jobs[i]? = some job) (h : job' ∈ s.jobs) (hne : job' ≠ job) :
    job' ∈ (s.drop i).jobs := by
  obtain ⟨j, hj⟩ := List.mem_iff_getElem?.mp h
  refine List.mem_eraseIdx_iff_getElem?.mpr ⟨j, ?_, hj⟩
  rintro rfl
  exact hne (Option.some.inj (hj.symm.trans hi))

theorem mem_stage_of_ne {stage : Stage ν} (hi : s.jobs[i]? = some job) (h : job' ∈ s.jobs)
    (hne : job' ≠ job) : job' ∈ (s.stage i job stage).jobs := by
  obtain ⟨j, hj⟩ := List.mem_iff_getElem?.mp h
  have hij : i ≠ j := by
    rintro rfl
    exact hne (Option.some.inj (hj.symm.trans hi))
  refine List.mem_iff_getElem?.mpr ⟨j, ?_⟩
  rw [State.stage, List.getElem?_set_ne hij]
  exact hj

end

/-! ### What the database answered -/

section

variable {world : Int → String → ν} {delay kept clock now : Int}

/-- The job has what the database answered when it was asked, and is for an answer that expires,
which `lambda_cache` sees to with the `SET`. -/
structure Job.Sound (world : Int → String → ν) (kept clock : Int) (job : Job ν) : Prop where
  right : ∀ value since, job.stage = .computed value since ∨ job.stage = .stored value since →
    value = world since job.call.key ∧ since ≤ clock
  expires : job.call.Expires kept
  kind : job.stage.isStored = true → job.call.kind ≠ .lambdaCache

/-- The entry of a key is what the database answered at `since`, and will not outlive that for
long: it expires, or a job is about to let it. -/
structure Aged (world : Int → String → ν) (delay kept : Int) (jobs : List (Job ν)) (key : String)
    (e : Expiring.Entry ν) (since : Int) : Prop where
  value : e.value = world since key
  ends : ∀ t, e.expires = some t → t ≤ since + 2 * delay + kept
  watched : e.expires = none →
    ∃ job ∈ jobs, ∃ value, job.call.key = key ∧ job.stage = .stored value since
  /-- Whoever else lets the key expire asked no later than the entry was set. -/
  others : ∀ job ∈ jobs, ∀ value asked, job.call.key = key → job.stage = .stored value asked →
    asked ≤ since + delay

/-- An answer given is what the database answered a while ago at most. -/
def Answer.Recent (world : Int → String → ν) (delay kept : Int) (a : Answer ν) : Prop :=
  ∃ since, since ≤ a.now ∧ a.now ≤ since + 2 * delay + kept ∧ a.value = world since a.key

structure Fresh (world : Int → String → ν) (delay kept clock : Int) (s : State ν) : Prop where
  entries : ∀ key e, s.redis key = some e →
    ∃ since, since ≤ clock ∧ Aged world delay kept s.jobs key e since
  jobs : ∀ job ∈ s.jobs, job.Sound world kept clock
  answers : ∀ a ∈ s.answers, a.Recent world delay kept

variable {s : State ν} {i : Nat} {job : Job ν} {value : ν} {since : Int}

theorem Fresh.later (h : Fresh world delay kept clock s) (hle : clock ≤ now) :
    Fresh world delay kept now s where
  entries key e he := by
    obtain ⟨since, hsince, haged⟩ := h.entries key e he
    exact ⟨since, Int.le_trans hsince hle, haged⟩
  jobs job hjob := by
    have hsound := h.jobs job hjob
    refine ⟨fun value since hstage => ?_, hsound.expires, hsound.kind⟩
    obtain ⟨hvalue, hsince⟩ := hsound.right value since hstage
    exact ⟨hvalue, Int.le_trans hsince hle⟩
  answers := h.answers

theorem Fresh.answer (h : Fresh world delay kept clock s) {call : Call}
    (hrecent : since ≤ now ∧ now ≤ since + 2 * delay + kept)
    (hvalue : value = world since call.key) :
    Fresh world delay kept clock (s.answer call value now) where
  entries := h.entries
  jobs := h.jobs
  answers a ha := by
    rcases List.mem_append.mp ha with ha | ha
    · exact h.answers a ha
    · rw [List.mem_singleton.mp ha]
      exact ⟨since, hrecent.1, hrecent.2, hvalue⟩

/-- Jobs that have not set the key may come and go. -/
theorem Aged.congr {jobs jobs' : List (Job ν)} {key : String} {e : Expiring.Entry ν}
    (h : Aged world delay kept jobs key e since) (hstored : ∀ job, job.stage.isStored = true →
      job.call.key = key → (job ∈ jobs' ↔ job ∈ jobs)) :
    Aged world delay kept jobs' key e since where
  value := h.value
  ends := h.ends
  watched hnone := by
    obtain ⟨job, hjob, value, hkey, hstage⟩ := h.watched hnone
    have hmem := hstored job (by simp [hstage, Stage.isStored]) hkey
    exact ⟨job, hmem.mpr hjob, value, hkey, hstage⟩
  others job hjob value asked hkey hstage := by
    have hmem := hstored job (by simp [hstage, Stage.isStored]) hkey
    exact h.others job (hmem.mp hjob) value asked hkey hstage

theorem Aged.drop {key : String} {e : Expiring.Entry ν}
    (h : Aged world delay kept s.jobs key e since) (hi : s.jobs[i]? = some job)
    (hne : job.stage.isStored = false ∨ job.call.key ≠ key) :
    Aged world delay kept (s.drop i).jobs key e since := by
  refine h.congr fun job' hstored hkey => ⟨mem_drop, fun hjob' => mem_drop_of_ne hi hjob' ?_⟩
  rintro rfl
  rcases hne with hne | hne
  · rw [hne] at hstored
    cases hstored
  · exact hne hkey

theorem Aged.stage {key : String} {e : Expiring.Entry ν} {stage : Stage ν}
    (h : Aged world delay kept s.jobs key e since) (hi : s.jobs[i]? = some job)
    (hne : job.stage.isStored = false ∧ stage.isStored = false ∨ job.call.key ≠ key) :
    Aged world delay kept (s.stage i job stage).jobs key e since := by
  refine h.congr fun job' hstored hkey => ⟨fun hjob' => ?_, fun hjob' => ?_⟩
  · rcases mem_stage hjob' with hjob' | rfl
    · exact hjob'
    · rcases hne with hne | hne
      · exact absurd hstored (by simp [hne.2])
      · exact absurd hkey hne
  · refine mem_stage_of_ne hi hjob' ?_
    rintro rfl
    rcases hne with hne | hne
    · exact absurd hstored (by simp [hne.1])
    · exact hne hkey

/-! ### The commands -/

theorem Fresh.ask (h : Fresh world delay kept clock s) {call : Call}
    (hexpires : call.Expires kept) (full : Bool) :
    Fresh world delay kept clock { s with jobs := s.jobs ++ [⟨call, .missed full⟩] } where
  entries key e he := by
    obtain ⟨since, hsince, haged⟩ := h.entries key e he
    refine ⟨since, hsince, haged.congr fun job hstored _ => ?_⟩
    have hne : job ≠ ⟨call, .missed full⟩ := by
      rintro rfl
      cases hstored
    simp [hne]
  jobs job hjob := by
    rcases List.mem_append.mp hjob with hjob | hjob
    · exact h.jobs job hjob
    · rw [List.mem_singleton.mp hjob]
      exact ⟨by simp, hexpires, by simp [Stage.isStored]⟩
  answers := h.answers

theorem Fresh.drop (h : Fresh world delay kept clock s) (hi : s.jobs[i]? = some job)
    (hnot : job.stage.isStored = false) : Fresh world delay kept clock (s.drop i) where
  entries key e he := by
    obtain ⟨since, hsince, haged⟩ := h.entries key e he
    exact ⟨since, hsince, haged.drop hi (Or.inl hnot)⟩
  jobs job hjob := h.jobs job (mem_drop hjob)
  answers := h.answers

/-- The database is asked. -/
theorem Fresh.compute (h : Fresh world delay kept now s) (hi : s.jobs[i]? = some job)
    (hnot : job.stage.isStored = false) :
    Fresh world delay kept now (s.stage i job (.computed (world now job.call.key) now)) where
  entries key e he := by
    obtain ⟨since, hsince, haged⟩ := h.entries key e he
    exact ⟨since, hsince, haged.stage hi (Or.inl ⟨hnot, rfl⟩)⟩
  jobs job' hjob' := by
    rcases mem_stage hjob' with hjob' | rfl
    · exact h.jobs job' hjob'
    · refine ⟨fun value since hstage => ?_, (h.jobs job (List.mem_of_getElem? hi)).expires, ?_⟩
      · rcases hstage with hstage | hstage
        · obtain ⟨rfl, rfl⟩ := Stage.computed.inj hstage
          exact ⟨rfl, Int.le_refl _⟩
        · cases hstage
      · simp [Stage.isStored]
  answers := h.answers

/-- Whoever is about to let a key expire has asked by now. -/
theorem Fresh.asked_le (h : Fresh world delay kept now s) (hjob : job ∈ s.jobs)
    (hstage : job.stage = .stored value since) : since ≤ now :=
  ((h.jobs job hjob).right value since (Or.inr hstage)).2

/-- `SET`, with the key to expire later. -/
theorem Fresh.set (h : Fresh world delay kept now s) (hin : InTime delay s now)
    (hi : s.jobs[i]? = some job)
    (hstage : job.stage = .computed value since) (hkind : job.call.kind ≠ .lambdaCache) :
    Fresh world delay kept now (State.stage
      { s with redis := Expiring.set s.redis job.call.key value } i job (.stored value since)) where
  entries key e he := by
    have hjob := List.mem_of_getElem? hi
    obtain ⟨hvalue, hsince⟩ := (h.jobs job hjob).right value since (Or.inl hstage)
    have hnow : now ≤ since + delay := hin job hjob since (by simp [hstage, Stage.since])
    by_cases hkey : key = job.call.key
    · have he : (⟨value, none⟩ : Expiring.Entry ν) = e := by
        rw [hkey] at he
        simpa [State.stage, Expiring.set] using he
      subst he
      refine ⟨since, hsince, hkey ▸ hvalue, by simp, fun _ => ?_, ?_⟩
      · refine ⟨{ job with stage := .stored value since }, ?_, value, hkey.symm, rfl⟩
        exact List.mem_set (List.getElem?_eq_some_iff.mp hi).1 _
      · intro job' hjob' value' asked _ hstage'
        rcases mem_stage hjob' with hjob' | rfl
        · exact Int.le_trans (h.asked_le hjob' hstage') hnow
        · obtain ⟨-, rfl⟩ := Stage.stored.inj hstage'
          omega
    · have he : s.redis key = some e := by
        simpa [State.stage, Expiring.set, hkey] using he
      obtain ⟨since', hsince', haged⟩ := h.entries key e he
      exact ⟨since', hsince', haged.stage hi (Or.inr (Ne.symm hkey))⟩
  jobs job' hjob' := by
    rcases mem_stage hjob' with hjob' | rfl
    · exact h.jobs job' hjob'
    · have hsound := h.jobs job (List.mem_of_getElem? hi)
      refine ⟨fun value' since' hstage' => ?_, hsound.expires, fun _ => hkind⟩
      rcases hstage' with hstage' | hstage'
      · cases hstage'
      · obtain ⟨rfl, rfl⟩ := Stage.stored.inj hstage'
        exact hsound.right value since (Or.inl hstage)
  answers := h.answers

/-- `SET` with a time to expire. -/
theorem Fresh.setex (h : Fresh world delay kept now s) (hin : InTime delay s now)
    (hi : s.jobs[i]? = some job)
    (hstage : job.stage = .computed value since) {ex : Int} (hex : ex ≤ kept) :
    Fresh world delay kept now (State.drop { s with
      redis := Expiring.expire (Expiring.set s.redis job.call.key value) job.call.key ex now }
      i) where
  entries key e he := by
    have hjob := List.mem_of_getElem? hi
    obtain ⟨hvalue, hsince⟩ := (h.jobs job hjob).right value since (Or.inl hstage)
    have hnow : now ≤ since + delay := hin job hjob since (by simp [hstage, Stage.since])
    simp only [State.drop, Expiring.expire_set] at he
    by_cases hkey : key = job.call.key
    · rw [hkey, Function.update_self] at he
      obtain rfl := Option.some.inj he
      refine ⟨since, hsince, hkey ▸ hvalue, fun t ht => ?_, by simp, ?_⟩
      · obtain rfl := Option.some.inj ht
        omega
      · intro job' hjob' value' asked _ hstage'
        exact Int.le_trans (h.asked_le (mem_drop hjob') hstage') hnow
    · rw [Function.update_of_ne hkey] at he
      obtain ⟨since', hsince', haged⟩ := h.entries key e he
      exact ⟨since', hsince', haged.drop hi (Or.inr (Ne.symm hkey))⟩
  jobs job' hjob' := h.jobs job' (mem_drop hjob')
  answers := h.answers

/-- `EXPIRE`, whoever has set the key by then. -/
theorem Fresh.expire (h : Fresh world delay kept now s) (hin : InTime delay s now)
    (hi : s.jobs[i]? = some job) (hstage : job.stage = .stored value since) {length : Int}
    (hlength : length ≤ kept) :
    Fresh world delay kept now (State.drop
      { s with redis := Expiring.expire s.redis job.call.key length now } i) where
  entries key e he := by
    have hjob := List.mem_of_getElem? hi
    have hnow : now ≤ since + delay := hin job hjob since (by simp [hstage, Stage.since])
    simp only [State.drop, Expiring.expire_apply] at he
    by_cases hkey : key = job.call.key
    · rw [if_pos hkey, ← hkey] at he
      obtain ⟨e₀, he₀, rfl⟩ := Option.map_eq_some_iff.mp he
      obtain ⟨since', hsince', haged⟩ := h.entries key e₀ he₀
      have hasked : since ≤ since' + delay := haged.others job hjob value since hkey.symm hstage
      refine ⟨since', hsince', ?_, ?_, ?_, ?_⟩
      · split <;> exact haged.value
      · intro t ht
        split at ht
        · obtain rfl := Option.some.inj ht
          omega
        · exact haged.ends t ht
      · intro hnone
        split at hnone
        · cases hnone
        · rename_i hdead
          exact absurd (by simp [Expiring.Entry.alive, hnone]) hdead
      · exact fun job' hjob' => haged.others job' (mem_drop hjob')
    · rw [if_neg hkey] at he
      obtain ⟨since', hsince', haged⟩ := h.entries key e he
      exact ⟨since', hsince', haged.drop hi (Or.inr (Ne.symm hkey))⟩
  jobs job' hjob' := h.jobs job' (mem_drop hjob')
  answers := h.answers

/-- What a key has was right not long ago. -/
theorem Fresh.recent (h : Fresh world delay kept now s) (hin : InTime delay s now)
    (hdelay : 0 ≤ delay) (hkept : 0 ≤ kept) {key : String}
    (hget : Expiring.get s.redis key now = some value) :
    ∃ since, (since ≤ now ∧ now ≤ since + 2 * delay + kept) ∧ value = world since key := by
  obtain ⟨e, he, halive, rfl⟩ := Expiring.exists_of_get hget
  obtain ⟨since, hsince, haged⟩ := h.entries key e he
  refine ⟨since, ⟨hsince, ?_⟩, haged.value⟩
  cases hexpires : e.expires with
  | none =>
      obtain ⟨job, hjob, value, -, hstage⟩ := haged.watched hexpires
      have hnow := hin job hjob since (by simp [hstage, Stage.since])
      omega
  | some t =>
      have hends := haged.ends t hexpires
      have hlt : now < t := by simpa [Expiring.Entry.alive, hexpires] using halive
      omega

/-! ### One event -/

theorem Fresh.lookup (h : Fresh world delay kept now s) (hin : InTime delay s now)
    (hdelay : 0 ≤ delay) (hkept : 0 ≤ kept) {call : Call} (hexpires : call.Expires kept)
    (full : Bool) : Fresh world delay kept now (lookup s call full now) := by
  unfold Cache.lookup
  split
  · rename_i value hget
    obtain ⟨since, hrecent, hvalue⟩ := h.recent hin hdelay hkept hget
    exact h.answer hrecent hvalue
  · exact h.ask hexpires _

/-- An answer that is to be kept for some time is. -/
theorem Call.Expires.expireAfter {call : Call} (h : call.Expires kept)
    (hkind : call.kind ≠ .lambdaCache) :
    ∃ length, call.expireAfter = some length ∧ length ≤ kept := by
  obtain ⟨ex, hex, hpos, hle⟩ := h
  refine ⟨ex, ?_, hle⟩
  have hne : ex ≠ 0 := by omega
  have hex : call.expire = some ex := hex
  unfold Call.expireAfter
  cases hk : call.kind with
  | lambdaCache => exact absurd hk hkind
  | _ => simp [hex, hne]

theorem Fresh.store (h : Fresh world delay kept now s) (hin : InTime delay s now)
    (hkept : 0 ≤ kept) (hi : s.jobs[i]? = some job)
    (hstage : job.stage = .computed value since) :
    Fresh world delay kept now (store s i job value since now) := by
  have hjob := List.mem_of_getElem? hi
  have hexpires := (h.jobs job hjob).expires
  obtain ⟨hvalue, hsince⟩ := (h.jobs job hjob).right value since (Or.inl hstage)
  have hnow : now ≤ since + delay := hin job hjob since (by simp [hstage, Stage.since])
  unfold Cache.store
  split
  · rename_i ex _ hex
    obtain ⟨ex', hex', hpos, hle⟩ := hexpires
    obtain rfl : ex = ex' := Option.some.inj (hex.symm.trans hex')
    rw [if_neg (by omega)]
    exact (h.setex hin hi hstage hle).answer ⟨hsince, by omega⟩ hvalue
  · rename_i hkind
    have hlambda : job.call.kind ≠ .lambdaCache := by
      intro hk
      obtain ⟨ex, hex, -⟩ := hexpires
      exact hkind ex hk hex
    obtain ⟨length, hlength, -⟩ := hexpires.expireAfter hlambda
    simp only [hlength, Option.isSome_some, if_true]
    exact h.set hin hi hstage hlambda

theorem Fresh.proceed (h : Fresh world delay kept now s) (hin : InTime delay s now)
    (hdelay : 0 ≤ delay) (hkept : 0 ≤ kept) (i : Nat) :
    Fresh world delay kept now (proceed world s i now) := by
  unfold Cache.proceed
  split
  · exact h
  rename_i job hi
  have hjob := List.mem_of_getElem? hi
  split
  · rename_i hstage
    exact (h.drop hi (by simp [hstage, Stage.isStored])).answer ⟨Int.le_refl _, by omega⟩ rfl
  · rename_i hstage
    exact h.compute hi (by simp [hstage, Stage.isStored])
  · rename_i value since hstage
    exact h.store hin hkept hi hstage
  · rename_i value since hstage
    have hsound := h.jobs job hjob
    obtain ⟨hvalue, hsince⟩ := hsound.right value since (Or.inr hstage)
    have hnow : now ≤ since + delay := hin job hjob since (by simp [hstage, Stage.since])
    obtain ⟨length, hlength, hle⟩ :=
      hsound.expires.expireAfter (hsound.kind (by simp [hstage, Stage.isStored]))
    simp only [hlength]
    exact (h.expire hin hi hstage hle).answer ⟨hsince, by omega⟩ hvalue

theorem Fresh.step (h : Fresh world delay kept clock s) (hdelay : 0 ≤ delay) (hkept : 0 ≤ kept)
    {e : Event} (hle : clock ≤ e.now) (hg : Punctual delay kept s e) :
    Fresh world delay kept e.now (step world s e) := by
  have hnow := h.later hle
  have hin := hg.inTime
  cases e with
  | ask call full now => exact hnow.lookup hin hdelay hkept hg.2 full
  | proceed i now => exact hnow.proceed hin hdelay hkept i
  | abandon i now =>
      cases hi : s.jobs[i]? with
      | none =>
          have hsame : s.drop i = s := by
            simp [State.drop, List.eraseIdx_of_length_le (List.getElem?_eq_none_iff.mp hi)]
          show Fresh world delay kept now (s.drop i)
          rw [hsame]
          exact hnow
      | some job => exact hnow.drop hi (hg.2 job hi)

/-! ### Every run -/

theorem fresh_empty (world : Int → String → ν) (delay kept clock : Int) :
    Fresh world delay kept clock {} where
  entries key e he := by cases he
  jobs := by simp
  answers := by simp

theorem Fresh.exec {events : List Event} (h : Fresh world delay kept clock s) (hdelay : 0 ≤ delay)
    (hkept : 0 ≤ kept) (hle : ∀ e ∈ events, clock ≤ e.now)
    (hsorted : events.Pairwise fun e e' => e.now ≤ e'.now)
    (hg : Run.Guarded (Cache.step world) (Punctual delay kept) s events) :
    ∃ clock, Fresh world delay kept clock (Run.exec (Cache.step world) s events) := by
  induction events generalizing clock s with
  | nil => exact ⟨clock, h⟩
  | cons e events ih =>
      obtain ⟨hlater, hsorted⟩ := List.pairwise_cons.mp hsorted
      exact ih (h.step hdelay hkept (hle e (by simp)) hg.1) hlater hsorted hg.2

end

/--
**A cached answer is never much older than the cache is told to keep it.**  However the commands
of the pages interleave, whichever of the functions they call and however the database changes,
every answer is what the database answered at most `kept` and twice `delay` before, as long as
calls are for answers kept no longer than `kept` and take no longer than `delay` from asking the
database to letting the key expire.
-/
theorem answers_recent (world : Int → String → ν) {delay kept : Int} (hdelay : 0 ≤ delay)
    (hkept : 0 ≤ kept) {events : List Event}
    (hsorted : events.Pairwise fun e e' => e.now ≤ e'.now)
    (hg : Run.Guarded (step world) (Punctual delay kept) {} events) :
    ∀ a ∈ (Run.exec (step world) {} events).answers,
      ∃ since, since ≤ a.now ∧ a.now ≤ since + 2 * delay + kept ∧ a.value = world since a.key := by
  cases events with
  | nil => simp
  | cons e events =>
      have hle : ∀ e' ∈ e :: events, e.now ≤ e'.now := by
        intro e' he'
        rcases List.mem_cons.mp he' with rfl | he'
        · exact Int.le_refl _
        · exact (List.pairwise_cons.mp hsorted).1 e' he'
      obtain ⟨clock, hfresh⟩ :=
        (fresh_empty world delay kept e.now).exec hdelay hkept hle hsorted hg
      exact hfresh.answers

/-! ### A call that does not come to its end -/

/-- The key has this value for good, and no job is about to do anything to it. -/
structure HeldForGood (s : State ν) (key : String) (value : ν) : Prop where
  entry : s.redis key = some ⟨value, none⟩
  idle : ∀ job ∈ s.jobs, job.call.key ≠ key

theorem HeldForGood.get {s : State ν} {key : String} {value : ν} (h : HeldForGood s key value)
    (now : Int) : Expiring.get s.redis key now = some value := by
  simp [Expiring.get, Expiring.entry, h.entry, Expiring.Entry.alive]

/-- A job for another key leaves it alone. -/
theorem HeldForGood.proceed {s : State ν} {key : String} {value : ν}
    (h : HeldForGood s key value) (world : Int → String → ν) (i : Nat) (now : Int) :
    HeldForGood (proceed world s i now) key value ∧
      ∀ a ∈ (proceed world s i now).answers, a.key = key → a ∈ s.answers := by
  unfold Cache.proceed
  split
  · exact ⟨h, fun a ha _ => ha⟩
  rename_i job hi
  have hne : job.call.key ≠ key := h.idle job (List.mem_of_getElem? hi)
  have hdrop : ∀ job' ∈ (s.drop i).jobs, job'.call.key ≠ key :=
    fun job' hjob' => h.idle job' (mem_drop hjob')
  have hstage : ∀ stage, ∀ job' ∈ (s.stage i job stage).jobs, job'.call.key ≠ key := by
    intro stage job' hjob'
    rcases mem_stage hjob' with hjob' | rfl
    · exact h.idle job' hjob'
    · exact hne
  have hanswers : ∀ value' : ν, ∀ a ∈ s.answers ++ [⟨job.call.key, value', now⟩],
      a.key = key → a ∈ s.answers := by
    intro value' a ha hkey
    rcases List.mem_append.mp ha with ha | ha
    · exact ha
    · rw [List.mem_singleton.mp ha] at hkey
      exact absurd hkey hne
  have hset : ∀ value', Expiring.set s.redis job.call.key value' key = some ⟨value, none⟩ := by
    intro value'
    rw [Expiring.set, Function.update_of_ne (Ne.symm hne)]
    exact h.entry
  have hexpire : ∀ redis : Expiring.Keys String ν, redis key = some ⟨value, none⟩ →
      ∀ length, Expiring.expire redis job.call.key length now key = some ⟨value, none⟩ := by
    intro redis hredis length
    rw [Expiring.expire_apply, if_neg (Ne.symm hne)]
    exact hredis
  split
  · exact ⟨⟨h.entry, hdrop⟩, hanswers _⟩
  · exact ⟨⟨h.entry, hstage _⟩, fun a ha _ => ha⟩
  · unfold Cache.store
    split
    · split
      · exact ⟨⟨h.entry, hdrop⟩, fun a ha _ => ha⟩
      · exact ⟨⟨hexpire _ (hset _) _, hdrop⟩, hanswers _⟩
    · simp only
      split
      · exact ⟨⟨hset _, hstage _⟩, fun a ha _ => ha⟩
      · exact ⟨⟨hset _, hdrop⟩, hanswers _⟩
  · split
    · exact ⟨⟨h.entry, hdrop⟩, hanswers _⟩
    · exact ⟨⟨hexpire _ h.entry _, hdrop⟩, hanswers _⟩

/-- Two pages count the same at the same time, and a third comes by a minute later. -/
def twoCounts : List Event :=
  let count : Call := ⟨.dbCountCache, "package_count", some 300⟩
  [.ask count false 0, .ask count false 0, .proceed 0 1, .proceed 1 2, .proceed 1 2, .proceed 0 3,
    .proceed 1 3, .proceed 0 4, .ask count false 60]

theorem answers_recent_twoCounts :
    (Run.exec (step fun now _ => now) {} twoCounts).answers.map (·.value) = [2, 1, 1] ∧
      ∀ a ∈ (Run.exec (step fun now _ => now) {} twoCounts).answers,
        ∃ since, since ≤ a.now ∧ a.now ≤ since + 2 * 10 + 300 ∧ a.value = since := by
  refine ⟨by decide +kernel, ?_⟩
  exact answers_recent (fun now _ => now) (by decide) (by decide) (by decide) (by decide +kernel)

/-- The answer of a call that has come to its end after `SET`. -/
def leftBehind : State Int :=
  { redis := Function.update Expiring.empty "package_count" (some ⟨1, none⟩) }

end Aurweb.Cache
