/-
Redis and the table count the same, up to the last second of a window.

The two stores are run side by side.  What a row of the table says is in its two keys, until
the end of its window, and an address without a row has no window; that is `InStep`, and a
request finds both stores before or both after the end of a window.  The end itself is the
exception: the key is gone by then, and the row is not yet too old.  The other requests the
two may answer differently are those with a window of no length, whose keys are gone before
they are read, and those a counter has no room for.
-/
import Aurweb.Lib.Run
import Aurweb.Ratelimit

namespace Aurweb.Ratelimit

/-- A server that counts in Redis and one that counts in its database. -/
def step (cfg : Settings) (s : Stores × Stores) (r : Request) : Stores × Stores :=
  ((checkRatelimit cfg true s.1 r).2, (checkRatelimit cfg false s.2 r).2)

/-- Both come to a decision, and to the same. -/
def Agree (cfg : Settings) (s : Stores × Stores) (r : Request) : Prop :=
  ∃ exceeded, (checkRatelimit cfg true s.1 r).1 = .ok exceeded ∧
    (checkRatelimit cfg false s.2 r).1 = .ok exceeded

/-- Windows have a length, and the request is not made in the very second its window is over,
nor when its counter is full. -/
def OffTheEnd (cfg : Settings) (s : Stores × Stores) (r : Request) : Prop :=
  0 < cfg.windowLength ∧ ∀ record ∈ s.2.table, record.ip = r.host →
    r.now ≠ record.windowStart + cfg.windowLength ∧
      (r.now < record.windowStart + cfg.windowLength → record.requests < 2147483647)

instance (cfg : Settings) (s : Stores × Stores) (r : Request) : Decidable (OffTheEnd cfg s r) :=
  inferInstanceAs (Decidable (_ ∧ _))

/-- What the table says is what Redis says. -/
structure InStep (cfg : Settings) (clock : Int) (redis : Redis) (table : List ApiRateLimit) :
    Prop where
  nodup : (table.map (·.ip)).Nodup
  window : ∀ record ∈ table, Expiring.HeldUntil redis (windowKey record.ip) record.windowStart
    (record.windowStart + cfg.windowLength)
  requests : ∀ record ∈ table, Expiring.HeldUntil redis (requestsKey record.ip) record.requests
    (record.windowStart + cfg.windowLength)
  gone : ∀ host, (∀ record ∈ table, record.ip ≠ host) →
    Expiring.GoneAt redis (windowKey host) clock

variable {cfg : Settings} {clock : Int} {redis : Redis} {table : List ApiRateLimit}
  {r : Request}

/-! ### Keys -/

theorem windowKey_inj {host host' : String} (h : windowKey host = windowKey host') :
    host = host' :=
  (String.append_right_inj _).mp h

theorem requestsKey_inj {host host' : String} (h : requestsKey host = requestsKey host') :
    host = host' :=
  (String.append_right_inj _).mp h

/-- One prefix goes on with `-` where the other has its colon. -/
theorem windowKey_ne (host host' : String) : windowKey host ≠ requestsKey host' := by
  intro h
  have hchars := congrArg (fun s : String => s.toList[9]?) h
  simp [windowKey, requestsKey] at hchars

/-! ### One request -/

/-- A row that is too old stands for a window that is over. -/
theorem InStep.delete (h : InStep cfg clock redis table) (hle : clock ≤ r.now) :
    InStep cfg r.now redis (Table.delete
      (fun record => decide (record.windowStart < r.now - cfg.windowLength)) table) where
  nodup := h.nodup.sublist ((Table.delete_sublist _ _).map _)
  window record hr := h.window record (Table.mem_delete.mp hr).1
  requests record hr := h.requests record (Table.mem_delete.mp hr).1
  gone host hnone := by
    by_cases hrow : ∃ record ∈ table, record.ip = host
    · obtain ⟨record, hr, rfl⟩ := hrow
      have hold : record.windowStart < r.now - cfg.windowLength := by
        by_contra hnot
        exact hnone record (Table.mem_delete.mpr ⟨hr, by simpa using hnot⟩) rfl
      exact (h.window record hr).gone (by omega)
    · refine (h.gone host fun record hr heq => ?_).later hle
      exact hrow ⟨record, hr, heq⟩

theorem startWindow_eq (cfg : Settings) (redis : Redis) (r : Request) :
    startWindow cfg redis r = Function.update
      (Function.update redis (windowKey r.host) (some ⟨r.now, some (r.now + cfg.windowLength)⟩))
      (requestsKey r.host) (some ⟨1, some (r.now + cfg.windowLength)⟩) := by
  unfold startWindow
  simp only [Expiring.expire_set]

/-- A new window is a new row. -/
theorem InStep.start (h : InStep cfg r.now redis table)
    (hnone : ∀ record ∈ table, record.ip ≠ r.host) :
    InStep cfg r.now (startWindow cfg redis r)
      (table ++ [{ ip := r.host, requests := 1, windowStart := r.now }]) := by
  rw [startWindow_eq]
  refine ⟨?_, ?_, ?_, ?_⟩
  · rw [List.map_append, List.nodup_append]
    refine ⟨h.nodup, by simp, ?_⟩
    intro ip hip ip' hip'
    obtain ⟨record, hr, rfl⟩ := List.mem_map.mp hip
    obtain rfl : ip' = r.host := by simpa using hip'
    exact hnone record hr
  · intro record hr
    rcases List.mem_append.mp hr with hr | hr
    · refine ((h.window record hr).update ?_ _).update (windowKey_ne _ _) _
      exact fun heq => hnone record hr (windowKey_inj heq)
    · obtain rfl := List.mem_singleton.mp hr
      exact (Expiring.heldUntil_update ..).update (windowKey_ne _ _) _
  · intro record hr
    rcases List.mem_append.mp hr with hr | hr
    · refine ((h.requests record hr).update (windowKey_ne _ _).symm _).update ?_ _
      exact fun heq => hnone record hr (requestsKey_inj heq)
    · obtain rfl := List.mem_singleton.mp hr
      exact Expiring.heldUntil_update ..
  · intro host hhost
    have hne : host ≠ r.host :=
      (hhost { ip := r.host, requests := 1, windowStart := r.now } (by simp)).symm
    have hgone := h.gone host fun record hr => hhost record (by simp [hr])
    refine (hgone.update ?_ _).update (windowKey_ne _ _) _
    exact fun heq => hne (windowKey_inj heq)

/-- A request that is counted is counted on both sides. -/
theorem InStep.count (h : InStep cfg r.now redis table) {record : ApiRateLimit}
    (hr : record ∈ table) (hhost : record.ip = r.host) :
    InStep cfg r.now
      (Function.update redis (requestsKey r.host)
        (some ⟨record.requests + 1, some (record.windowStart + cfg.windowLength)⟩))
      (Table.update (·.ip == r.host) (fun record => { record with requests := record.requests + 1 })
        table) where
  nodup := by
    have hsame : (Table.update (·.ip == r.host)
        (fun record => { record with requests := record.requests + 1 }) table).map (·.ip) =
          table.map (·.ip) := by
      apply Table.map_update
      intro record
      rfl
    rw [hsame]
    exact h.nodup
  window record' hr' := by
    obtain ⟨record₀, hr₀, rfl⟩ := Table.mem_update.mp hr'
    have hheld := (h.window record₀ hr₀).update (windowKey_ne record₀.ip r.host)
      (some ⟨record.requests + 1, some (record.windowStart + cfg.windowLength)⟩)
    split <;> exact hheld
  requests record' hr' := by
    obtain ⟨record₀, hr₀, rfl⟩ := Table.mem_update.mp hr'
    by_cases hsame : record₀.ip = r.host
    · obtain rfl : record₀ = record :=
        List.inj_on_of_nodup_map h.nodup hr₀ hr (hsame.trans hhost.symm)
      simp only [hsame, beq_self_eq_true, if_true]
      exact Expiring.heldUntil_update ..
    · simp only [beq_iff_eq, hsame, if_false]
      exact (h.requests record₀ hr₀).update (fun heq => hsame (requestsKey_inj heq)) _
  gone host hnone := by
    refine (h.gone host fun record₀ hr₀ => ?_).update (windowKey_ne _ _) _
    have hkept := hnone _ (Table.mem_update.mpr ⟨record₀, hr₀, rfl⟩)
    split at hkept <;> exact hkept

/-- What the two updates do to stores that are in step: a window is started in both, or the
request is counted in both. -/
theorem InStep.update (h : InStep cfg clock redis table) (hle : clock ≤ r.now)
    (hoff : ∀ record ∈ table, record.ip = r.host →
      r.now ≠ record.windowStart + cfg.windowLength ∧
        (r.now < record.windowStart + cfg.windowLength → record.requests < 2147483647)) :
    ∃ redis' table' record, updateRatelimitRedis cfg redis r = .ok redis' ∧
      updateRatelimitDb cfg table r = (.ok record, table') ∧ InStep cfg r.now redis' table' ∧
      record ∈ table' ∧ record.ip = r.host ∧
      (0 < cfg.windowLength → r.now < record.windowStart + cfg.windowLength) := by
  have hkept := h.delete hle
  unfold updateRatelimitRedis updateRatelimitDb
  cases hfind : (Table.delete
      (fun record => decide (record.windowStart < r.now - cfg.windowLength)) table).find?
      (·.ip == r.host) with
  | none =>
      have hnone : ∀ record ∈ Table.delete
          (fun record => decide (record.windowStart < r.now - cfg.windowLength)) table,
          record.ip ≠ r.host := by
        intro record hr
        simpa using List.find?_eq_none.mp hfind record hr
      rw [(hkept.gone r.host hnone).get]
      simp only [hfind]
      refine ⟨_, _, _, rfl, rfl, hkept.start hnone, by simp, rfl, fun hpos => ?_⟩
      show r.now < r.now + cfg.windowLength
      omega
  | some record =>
      have hmem := List.mem_of_find?_eq_some hfind
      have hhost : record.ip = r.host := by simpa using List.find?_some hfind
      obtain ⟨hrow, hyoung⟩ := Table.mem_delete.mp hmem
      obtain ⟨hend, hroom⟩ := hoff record hrow hhost
      have halive : r.now < record.windowStart + cfg.windowLength := by
        have hnot : ¬record.windowStart < r.now - cfg.windowLength := by simpa using hyoung
        omega
      have hroom := hroom halive
      have hwindow := (hkept.window record hmem).get halive
      have hrequests := (hkept.requests record hmem).get halive
      rw [hhost] at hwindow hrequests
      have hheld := hkept.requests record hmem
      rw [hhost] at hheld
      rw [hwindow]
      simp only [hfind]
      rw [if_neg (by omega), if_neg (by omega)]
      unfold incr
      rw [hrequests]
      simp only
      rw [if_neg (by omega), hheld.modify halive]
      refine ⟨_, _, _, rfl, rfl, hkept.count hmem hhost, ?_, hhost, fun _ => halive⟩
      exact Table.mem_update.mpr ⟨record, hmem, by simp [hhost]⟩

/-- Stores that are in step agree, and stay in step. -/
theorem InStep.check {s : Stores × Stores} (h : InStep cfg clock s.1.redis s.2.table)
    (hle : clock ≤ r.now) (hoff : OffTheEnd cfg s r) :
    Agree cfg s r ∧ InStep cfg r.now (step cfg s r).1.redis (step cfg s r).2.table := by
  obtain ⟨hpos, hoff⟩ := hoff
  obtain ⟨redis', table', record, hredis, hdb, hin, hmem, hhost, halive⟩ := h.update hle hoff
  have hcount := (hin.requests record hmem).get (halive hpos)
  rw [hhost] at hcount
  have hcached : checkRatelimit cfg true s.1 r =
      (.ok (decide (record.requests > cfg.requestLimit)), { s.1 with redis := redis' }) := by
    simp [checkRatelimit, updateRatelimit, hredis, hcount]
  have hstored : checkRatelimit cfg false s.2 r =
      (.ok (decide (record.requests > cfg.requestLimit)), { s.2 with table := table' }) := by
    simp only [checkRatelimit, updateRatelimit, hdb, Bool.false_eq_true, if_false]
    split <;> rfl
  refine ⟨⟨_, congrArg Prod.fst hcached, congrArg Prod.fst hstored⟩, ?_⟩
  unfold step
  rw [hcached, hstored]
  exact hin

/-! ### Every run -/

theorem inStep_empty (cfg : Settings) (clock : Int) : InStep cfg clock Expiring.empty [] where
  nodup := List.nodup_nil
  window := by simp
  requests := by simp
  gone _ _ := Expiring.goneAt_empty

theorem InStep.agree {requests : List Request} {s : Stores × Stores}
    (h : InStep cfg clock s.1.redis s.2.table) (hle : ∀ r ∈ requests, clock ≤ r.now)
    (hsorted : requests.Pairwise fun r r' => r.now ≤ r'.now)
    (hg : Run.Guarded (step cfg) (OffTheEnd cfg) s requests) :
    Run.Guarded (step cfg) (Agree cfg) s requests := by
  induction requests generalizing clock s with
  | nil => trivial
  | cons r requests ih =>
      obtain ⟨hagree, hnext⟩ := h.check (hle r (by simp)) hg.1
      obtain ⟨hlater, hsorted⟩ := List.pairwise_cons.mp hsorted
      exact ⟨hagree, ih hnext hlater hsorted hg.2⟩

/--
**Redis and the database decide alike** on every request of every sequence, whatever the
addresses it comes from, as long as windows have a length, no request is made in the second
in which the window of its address is over, and no counter is full.
-/
theorem agree_of_offTheEnd (cfg : Settings) (requests : List Request)
    (hsorted : requests.Pairwise fun r r' => r.now ≤ r'.now)
    (hg : Run.Guarded (step cfg) (OffTheEnd cfg) ({}, {}) requests) :
    Run.Guarded (step cfg) (Agree cfg) ({}, {}) requests := by
  cases requests with
  | nil => trivial
  | cons r requests =>
      have hle : ∀ r' ∈ r :: requests, r.now ≤ r'.now := by
        intro r' hr'
        rcases List.mem_cons.mp hr' with rfl | hr'
        · exact Int.le_refl _
        · exact (List.pairwise_cons.mp hsorted).1 r' hr'
      exact (inStep_empty cfg r.now).agree hle hsorted hg

/-- One request in a minute. -/
def oneAMinute : Settings := ⟨1, 60⟩

theorem agree_of_offTheEnd_localhost :
    Run.Guarded (step oneAMinute) (Agree oneAMinute) ({}, {})
      [⟨"127.0.0.1", 0⟩, ⟨"127.0.0.1", 30⟩, ⟨"127.0.0.1", 61⟩] :=
  agree_of_offTheEnd oneAMinute _ (by decide) (by decide +kernel)

/-- A minute after the first request, Redis has forgotten it and the table has not. -/
theorem not_agree_at_the_end :
    ¬Run.Guarded (step oneAMinute) (Agree oneAMinute) ({}, {})
      [⟨"127.0.0.1", 0⟩, ⟨"127.0.0.1", 60⟩] := by
  rintro ⟨-, ⟨exceeded, hredis, hdb⟩, -⟩
  have hcached : (checkRatelimit oneAMinute true
      (step oneAMinute ({}, {}) ⟨"127.0.0.1", 0⟩).1 ⟨"127.0.0.1", 60⟩).1 = .ok false := by
    decide +kernel
  have hstored : (checkRatelimit oneAMinute false
      (step oneAMinute ({}, {}) ⟨"127.0.0.1", 0⟩).2 ⟨"127.0.0.1", 60⟩).1 = .ok true := by
    decide +kernel
  have hfalse := Except.ok.inj (hredis.symm.trans hcached)
  have htrue := Except.ok.inj (hdb.symm.trans hstored)
  exact absurd (hfalse.symm.trans htrue) (by decide)

end Aurweb.Ratelimit
