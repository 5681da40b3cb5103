/-
What the rate limiter lets through.

For an address both stores are a counter that begins again (`Matches`): the row of the table, or
its deletion, and the two keys, or their end.  A window of the table is a second longer than one
in Redis, since a row is deleted when it is older than the length.  The requests of other
addresses do not touch it, except that they may delete a row whose window is over.  So what holds
of such counters holds of the server, whichever store it counts in: how many requests of an
address it admits (`admitted_le`), and that none is turned away before its time (`admits_under`).
-/
import Aurweb.Lib.FixedWindow
import Aurweb.Proofs.Ratelimit
import Mathlib.Data.List.Induction

namespace Aurweb.Ratelimit

open FixedWindow

/-- How long a window takes requests. -/
def span (cfg : Settings) (cache : Bool) : Int :=
  if cache then cfg.windowLength else cfg.windowLength + 1

/-- A server's requests with the answers they have had. -/
abbrev Answers := List (Request × Except String Bool)

def serve (cfg : Settings) (cache : Bool) (s : Stores × Answers) (r : Request) :
    Stores × Answers :=
  let (answer, st) := checkRatelimit cfg cache s.1 r
  (st, s.2 ++ [(r, answer)])

/-- The stores and the answers after some requests. -/
def answers (cfg : Settings) (cache : Bool) (requests : List Request) : Stores × Answers :=
  requests.foldl (serve cfg cache) ({}, [])

/-- The requests of an address that were counted. -/
def logOf (host : String) (answered : Answers) : Log :=
  answered.filterMap fun a =>
    match a.2 with
    | .ok exceeded => if a.1.host = host then some (a.1.now, exceeded) else none
    | .error _ => none

/-- What the stores have of the counter of an address. -/
def Matches (cfg : Settings) (cache : Bool) (clock : Int) (st : Stores) (host : String) :
    Option Window → Prop
  | none =>
      if cache then Expiring.GoneAt st.redis (windowKey host) clock
      else ∀ record ∈ st.table, record.ip ≠ host
  | some w =>
      if cache then
        Expiring.HeldUntil st.redis (windowKey host) w.start (w.start + cfg.windowLength) ∧
          Expiring.HeldUntil st.redis (requestsKey host) w.count (w.start + cfg.windowLength)
      else
        (∀ record ∈ st.table, record.ip = host →
          record.windowStart = w.start ∧ record.requests = w.count) ∧
        ((∃ record ∈ st.table, record.ip = host) ∨ w.start + cfg.windowLength < clock)

/-- The counter of an address at the limit of its column. -/
def full (cache : Bool) : Int := if cache then 9223372036854775807 else 2147483647

variable {cfg : Settings} {cache : Bool} {clock : Int} {st : Stores} {host : String}
  {w : Option Window} {r : Request} {requests : List Request}

/-! ### One request -/

theorem Matches.later (h : Matches cfg cache clock st host w) {now : Int} (hle : clock ≤ now) :
    Matches cfg cache now st host w := by
  cases w with
  | none =>
      cases cache with
      | true => exact Expiring.GoneAt.later h hle
      | false => exact h
  | some w =>
      cases cache with
      | true => exact h
      | false => exact ⟨h.1, h.2.imp_right fun hover => Int.lt_of_lt_of_le hover hle⟩

/-- What a request does to the counter of its address: it is counted, unless the counter is full
in its window. -/
def Counts (cfg : Settings) (cache : Bool) (st : Stores) (r : Request) (w : Option Window) : Prop :=
  let result := checkRatelimit cfg cache st r
  (result.1 = .ok (decide (cfg.requestLimit < (hit (span cfg cache) w r.now).count)) ∧
    Matches cfg cache r.now result.2 r.host (some (hit (span cfg cache) w r.now))) ∨
  ((∃ e, result.1 = .error e) ∧ Matches cfg cache r.now result.2 r.host w ∧
    full cache < (hit (span cfg cache) w r.now).count)

theorem counts_start_redis (hpos : 0 < cfg.windowLength)
    (hupdate : updateRatelimitRedis cfg st.redis r = .ok (startWindow cfg st.redis r))
    (hhit : hit (span cfg true) w r.now = ⟨r.now, 1⟩) : Counts cfg true st r w := by
  have hwindow : Expiring.HeldUntil (startWindow cfg st.redis r) (windowKey r.host) r.now
      (r.now + cfg.windowLength) := by
    rw [startWindow_eq]
    exact (Expiring.heldUntil_update ..).update (windowKey_ne _ _) _
  have hrequests : Expiring.HeldUntil (startWindow cfg st.redis r) (requestsKey r.host) 1
      (r.now + cfg.windowLength) := by
    rw [startWindow_eq]
    exact Expiring.heldUntil_update ..
  have hin : r.now < r.now + cfg.windowLength := by omega
  have hget := hrequests.get hin
  refine .inl ?_
  rw [hhit]
  simp only [checkRatelimit, updateRatelimit, hupdate, if_true, hget]
  exact ⟨trivial, hwindow, hrequests⟩

theorem Matches.counts_redis (h : Matches cfg true r.now st r.host w)
    (hpos : 0 < cfg.windowLength) : Counts cfg true st r w := by
  cases w with
  | none =>
      refine counts_start_redis hpos ?_ rfl
      rw [updateRatelimitRedis, Expiring.GoneAt.get h]
  | some w =>
      obtain ⟨hwindow, hrequests⟩ := h
      by_cases hover : w.start + cfg.windowLength ≤ r.now
      · refine counts_start_redis hpos ?_ ?_
        · rw [updateRatelimitRedis, (hwindow.gone hover).get]
        · exact if_pos hover
      · have halive : r.now < w.start + cfg.windowLength := by omega
        have hcount : hit (span cfg true) (some w) r.now = ⟨w.start, w.count + 1⟩ := if_neg hover
        have hupdate : updateRatelimitRedis cfg st.redis r =
            if w.count = 9223372036854775807 then .error "ResponseError"
            else .ok (Function.update st.redis (requestsKey r.host)
              (some ⟨w.count + 1, some (w.start + cfg.windowLength)⟩)) := by
          rw [updateRatelimitRedis, hwindow.get halive]
          dsimp only
          rw [if_neg (by omega), incr, hrequests.get halive]
          dsimp only
          rw [hrequests.modify halive]
        by_cases hfull : w.count = 9223372036854775807
        · refine .inr ?_
          rw [hcount]
          rw [if_pos hfull] at hupdate
          simp only [checkRatelimit, updateRatelimit, hupdate, if_true]
          refine ⟨⟨_, rfl⟩, ⟨hwindow, hrequests⟩, ?_⟩
          show (9223372036854775807 : Int) < w.count + 1
          omega
        · rw [if_neg hfull] at hupdate
          have hheld := Expiring.heldUntil_update st.redis (requestsKey r.host) (w.count + 1)
            (w.start + cfg.windowLength)
          refine .inl ?_
          rw [hcount]
          simp only [checkRatelimit, updateRatelimit, hupdate, if_true, hheld.get halive]
          exact ⟨trivial, hwindow.update (windowKey_ne _ _) _, hheld⟩

/-- Where the counter is in the table the answer is what the row has. -/
theorem checkRatelimit_db (cfg : Settings) (st : Stores) (r : Request) :
    checkRatelimit cfg false st r =
      ((updateRatelimitDb cfg st.table r).1.map fun record =>
          decide (record.requests > cfg.requestLimit),
        { st with table := (updateRatelimitDb cfg st.table r).2 }) := by
  unfold checkRatelimit updateRatelimit
  cases hdb : updateRatelimitDb cfg st.table r with
  | mk result table =>
      cases result with
      | error e => simp [Except.map]
      | ok record =>
          simp only [Bool.false_eq_true, if_false, Except.map]
          split <;> rfl

/-- The rows that are left of the table. -/
theorem Matches.delete (h : Matches cfg false clock st host w) {now : Int} (hle : clock ≤ now)
    {table : List ApiRateLimit} (htable : table = Table.delete
      (fun record => decide (record.windowStart < now - cfg.windowLength)) st.table) :
    Matches cfg false now { st with table := table } host w := by
  subst htable
  cases w with
  | none => exact fun record hr => h record (Table.mem_delete.mp hr).1
  | some w =>
      refine ⟨fun record hr => h.1 record (Table.mem_delete.mp hr).1, ?_⟩
      rcases h.2 with ⟨record, hr, hip⟩ | hover
      · by_cases hold : record.windowStart < now - cfg.windowLength
        · have hstart := (h.1 record hr hip).1
          exact Or.inr (by omega)
        · exact Or.inl ⟨record, Table.mem_delete.mpr ⟨hr, by simpa using hold⟩, hip⟩
      · exact Or.inr (Int.lt_of_lt_of_le hover hle)

theorem Matches.counts_db (h : Matches cfg false r.now st r.host w) : Counts cfg false st r w := by
  have hkept := h.delete (Int.le_refl _) rfl
  unfold Counts
  rw [checkRatelimit_db]
  unfold updateRatelimitDb
  dsimp only
  cases hfind : (Table.delete
      (fun record => decide (record.windowStart < r.now - cfg.windowLength)) st.table).find?
      (·.ip == r.host) with
  | none =>
      have hnone : ∀ record ∈ Table.delete
          (fun record => decide (record.windowStart < r.now - cfg.windowLength)) st.table,
          record.ip ≠ r.host := by
        intro record hr
        simpa using List.find?_eq_none.mp hfind record hr
      have hhit : hit (span cfg false) w r.now = ⟨r.now, 1⟩ := by
        cases w with
        | none => rfl
        | some w =>
            rcases hkept.2 with ⟨record, hr, hip⟩ | hover
            · exact absurd hip (hnone record hr)
            · exact if_pos (show w.start + (cfg.windowLength + 1) ≤ r.now by omega)
      rw [hhit]
      refine .inl ⟨rfl, ?_, Or.inl ⟨_, List.mem_append_right _ (List.mem_singleton_self _), rfl⟩⟩
      intro record hr hip
      rcases List.mem_append.mp hr with hr | hr
      · exact absurd hip (hnone record hr)
      · rw [List.mem_singleton.mp hr]
        exact ⟨rfl, rfl⟩
  | some record =>
      have hmem := List.mem_of_find?_eq_some hfind
      have hip : record.ip = r.host := by simpa using List.find?_some hfind
      have hyoung : ¬ record.windowStart < r.now - cfg.windowLength := by
        simpa using (Table.mem_delete.mp hmem).2
      cases w with
      | none => exact absurd hip (hkept record hmem)
      | some w =>
          obtain ⟨hstart, hrequests⟩ := hkept.1 record hmem hip
          have hhit : hit (span cfg false) (some w) r.now = ⟨w.start, w.count + 1⟩ :=
            if_neg (show ¬ w.start + (cfg.windowLength + 1) ≤ r.now by omega)
          rw [hhit]
          dsimp only
          by_cases hfull : record.requests = 2147483647
          · rw [if_pos hfull]
            refine .inr ⟨⟨_, rfl⟩, hkept, ?_⟩
            show (2147483647 : Int) < w.count + 1
            omega
          · rw [if_neg hfull]
            refine .inl ⟨?_, ?_, ?_⟩
            · rw [← hrequests]
              rfl
            · intro record' hr' hip'
              obtain ⟨record₀, hr₀, rfl⟩ := Table.mem_update.mp hr'
              by_cases hsame : record₀.ip = r.host
              · obtain ⟨hstart₀, hrequests₀⟩ := hkept.1 record₀ hr₀ hsame
                simp only [hsame, beq_self_eq_true, if_true]
                exact ⟨hstart₀, by rw [hrequests₀]⟩
              · simp only [beq_iff_eq, hsame, if_false] at hip'
            · exact Or.inl ⟨_, Table.mem_update.mpr ⟨record, hmem, rfl⟩, by simp [hip]⟩

theorem Matches.counts (h : Matches cfg cache r.now st r.host w)
    (hpos : cache = true → 0 < cfg.windowLength) : Counts cfg cache st r w := by
  cases cache with
  | true => exact h.counts_redis (hpos rfl)
  | false => exact h.counts_db

/-! The counters of other addresses are left as they are. -/

theorem Matches.other_db (h : Matches cfg false r.now st host w) (hne : host ≠ r.host) :
    Matches cfg false r.now (checkRatelimit cfg false st r).2 host w := by
  have hkept := h.delete (Int.le_refl _) rfl
  rw [checkRatelimit_db]
  unfold updateRatelimitDb
  dsimp only
  split
  · next hfind =>
      cases w with
      | none =>
          intro record hr
          rcases List.mem_append.mp hr with hr | hr
          · exact hkept record hr
          · rw [List.mem_singleton.mp hr]
            exact hne.symm
      | some w =>
          refine ⟨fun record hr hip => ?_, hkept.2.imp_left ?_⟩
          · rcases List.mem_append.mp hr with hr | hr
            · exact hkept.1 record hr hip
            · rw [List.mem_singleton.mp hr] at hip
              exact absurd hip hne.symm
          · intro ⟨record, hr, hip⟩
            exact ⟨record, List.mem_append_left _ hr, hip⟩
  · next record hfind =>
      split
      · exact hkept
      · cases w with
        | none =>
            intro record' hr'
            obtain ⟨record₀, hr₀, rfl⟩ := Table.mem_update.mp hr'
            have hip₀ := hkept record₀ hr₀
            split
            · exact hip₀
            · exact hip₀
        | some w =>
            refine ⟨fun record' hr' hip' => ?_, hkept.2.imp_left ?_⟩
            · obtain ⟨record₀, hr₀, rfl⟩ := Table.mem_update.mp hr'
              by_cases hsame : record₀.ip = r.host
              · simp only [hsame, beq_self_eq_true, if_true] at hip'
                exact absurd hip'.symm hne
              · simp only [beq_iff_eq, hsame, if_false] at hip' ⊢
                exact hkept.1 record₀ hr₀ hip'
            · intro ⟨record₀, hr₀, hip₀⟩
              have hsame : record₀.ip ≠ r.host := hip₀ ▸ hne
              refine ⟨record₀, Table.mem_update.mpr ⟨record₀, hr₀, if_neg ?_⟩, hip₀⟩
              simpa using hsame

theorem updateRatelimitRedis_other {redis redis' : Redis}
    (h : updateRatelimitRedis cfg redis r = .ok redis') {key : String}
    (hwindow : key ≠ windowKey r.host) (hrequests : key ≠ requestsKey r.host) :
    redis' key = redis key := by
  have hstart : startWindow cfg redis r key = redis key := by
    rw [startWindow_eq, Function.update_of_ne hrequests, Function.update_of_ne hwindow]
  unfold updateRatelimitRedis at h
  dsimp only at h
  split at h
  · rw [← Except.ok.inj h]
    exact hstart
  · split at h
    · rw [← Except.ok.inj h]
      exact hstart
    · unfold incr at h
      split at h
      · rw [← Except.ok.inj h]
        exact Function.update_of_ne hrequests ..
      · split at h
        · cases h
        · rw [← Except.ok.inj h, Expiring.modify]
          cases Expiring.entry redis (requestsKey r.host) r.now with
          | none => rfl
          | some e => exact Function.update_of_ne hrequests ..

theorem Matches.other_redis (h : Matches cfg true r.now st host w) (hne : host ≠ r.host) :
    Matches cfg true r.now (checkRatelimit cfg true st r).2 host w := by
  unfold checkRatelimit updateRatelimit
  cases hupdate : updateRatelimitRedis cfg st.redis r with
  | error e =>
      simp only [if_true]
      exact h
  | ok redis =>
      have hwindow : redis (windowKey host) = st.redis (windowKey host) :=
        updateRatelimitRedis_other hupdate (fun heq => hne (windowKey_inj heq)) (windowKey_ne _ _)
      have hrequests : redis (requestsKey host) = st.redis (requestsKey host) :=
        updateRatelimitRedis_other hupdate (windowKey_ne _ _).symm fun heq =>
          hne (requestsKey_inj heq)
      have hkept : Matches cfg true r.now { st with redis := redis } host w := by
        cases w with
        | none => exact fun e he => h e (hwindow ▸ he)
        | some w => exact ⟨hwindow.trans h.1, hrequests.trans h.2⟩
      simp only [if_true]
      split
      · exact hkept
      · exact hkept

theorem Matches.other (h : Matches cfg cache r.now st host w) (hne : host ≠ r.host) :
    Matches cfg cache r.now (checkRatelimit cfg cache st r).2 host w := by
  cases cache with
  | true => exact h.other_redis hne
  | false => exact h.other_db hne

/-! ### Every run -/

/-- The counter of every address, against the requests that it counted. -/
def Served (cfg : Settings) (cache : Bool) (clock : Int) (s : Stores × Answers) : Prop :=
  ∀ host, ∃ w, Counted (span cfg cache) cfg.requestLimit clock w (logOf host s.2) ∧
    Matches cfg cache clock s.1 host w

theorem answers_concat (cfg : Settings) (cache : Bool) (requests : List Request) (r : Request) :
    answers cfg cache (requests ++ [r]) = serve cfg cache (answers cfg cache requests) r := by
  rw [answers, List.foldl_concat]
  rfl

theorem logOf_append (host : String) (answered answered' : Answers) :
    logOf host (answered ++ answered') = logOf host answered ++ logOf host answered' :=
  List.filterMap_append ..

theorem served_initial (cfg : Settings) (cache : Bool) (clock : Int) :
    Served cfg cache clock ({}, []) := by
  intro host
  refine ⟨none, counted_nil _ _ _, ?_⟩
  cases cache with
  | true =>
      show Expiring.GoneAt Expiring.empty (windowKey host) clock
      exact Expiring.goneAt_empty
  | false => exact fun record hr => absurd hr List.not_mem_nil

theorem Served.later {s : Stores × Answers} (h : Served cfg cache clock s) {now : Int}
    (hle : clock ≤ now) : Served cfg cache now s := by
  intro host
  obtain ⟨w, hcounted, hmatches⟩ := h host
  exact ⟨w, hcounted.later hle, hmatches.later hle⟩

theorem Served.serve {s : Stores × Answers} (h : Served cfg cache r.now s)
    (hpos : cache = true → 0 < cfg.windowLength) :
    Served cfg cache r.now (serve cfg cache s r) := by
  intro host
  obtain ⟨w, hcounted, hmatches⟩ := h host
  show ∃ w, Counted _ _ _ w (logOf host (s.2 ++ [(r, (checkRatelimit cfg cache s.1 r).1)])) ∧
    Matches cfg cache r.now (checkRatelimit cfg cache s.1 r).2 host w
  rw [logOf_append]
  by_cases hhost : host = r.host
  · subst hhost
    rcases hmatches.counts hpos with ⟨hanswer, hnext⟩ | ⟨⟨e, hanswer⟩, hnext, -⟩
    · refine ⟨_, ?_, hnext⟩
      rw [hanswer]
      simpa [logOf] using hcounted.next (Int.le_refl _)
    · refine ⟨w, ?_, hnext⟩
      rw [hanswer]
      simpa [logOf] using hcounted
  · refine ⟨w, ?_, hmatches.other hhost⟩
    have hnone : logOf host [(r, (checkRatelimit cfg cache s.1 r).1)] = [] := by
      simp only [logOf, List.filterMap_cons, List.filterMap_nil, Ne.symm hhost, if_false]
      cases (checkRatelimit cfg cache s.1 r).1 <;> rfl
    rw [hnone, List.append_nil]
    exact hcounted

/-- The requests that have been made. -/
theorem fst_answers (cfg : Settings) (cache : Bool) (requests : List Request) :
    (answers cfg cache requests).2.map (·.1) = requests := by
  induction requests using List.reverseRecOn with
  | nil => rfl
  | append_singleton requests r ih =>
      rw [answers_concat]
      show ((answers cfg cache requests).2 ++ [(r, _)]).map _ = _
      rw [List.map_append, ih]
      rfl

theorem served_answers (hpos : cache = true → 0 < cfg.windowLength)
    (hsorted : requests.Pairwise fun r r' => r.now ≤ r'.now)
    (hclock : ∀ r ∈ requests, r.now ≤ clock) :
    Served cfg cache clock (answers cfg cache requests) := by
  induction requests using List.reverseRecOn generalizing clock with
  | nil => exact served_initial cfg cache clock
  | append_singleton requests r ih =>
      obtain ⟨hbefore, -, hlast⟩ := List.pairwise_append.mp hsorted
      rw [answers_concat]
      have hserved := ih hbefore fun r' hr' => hlast r' hr' r (List.mem_singleton_self r)
      exact (hserved.serve hpos).later (hclock r (by simp))

theorem exists_clock (requests : List Request) : ∃ clock, ∀ r ∈ requests, r.now ≤ clock := by
  induction requests with
  | nil => exact ⟨0, by simp⟩
  | cons r requests ih =>
      obtain ⟨clock, hclock⟩ := ih
      refine ⟨max r.now clock, fun r' hr' => ?_⟩
      rcases List.mem_cons.mp hr' with rfl | hr'
      · exact Int.le_max_left _ _
      · exact Int.le_trans (hclock r' hr') (Int.le_max_right _ _)

/-- The requests of an address within an interval that were let through. -/
def admitted (host : String) (t u : Int) (answered : Answers) : Answers :=
  answered.filter fun a =>
    a.1.host = host ∧ t ≤ a.1.now ∧ a.1.now < u ∧ a.2.toOption = some false

theorem length_admitted (host : String) (t u : Int) (answered : Answers) :
    (admitted host t u answered).length = passed t u (logOf host answered) := by
  rw [admitted, ← List.countP_eq_length_filter, passed, logOf, List.countP_filterMap]
  refine List.countP_congr fun a _ => ?_
  cases a.2 with
  | error e => simp [Except.toOption]
  | ok exceeded =>
      by_cases hhost : a.1.host = host
      · simp [Except.toOption, hhost, and_assoc]
      · simp [hhost]

/-- Whatever is asked by whatever addresses, in an interval as long as a window an address has
less than twice the limit of its requests let through, with either store. -/
theorem admitted_le (cfg : Settings) (cache : Bool) (requests : List Request)
    (hsorted : requests.Pairwise fun r r' => r.now ≤ r'.now) (host : String) (t : Int) :
    (admitted host t (t + span cfg cache) (answers cfg cache requests).2).length ≤
      2 * cfg.requestLimit.toNat - 1 := by
  rw [length_admitted]
  by_cases hpos : cache = true → 0 < cfg.windowLength
  · obtain ⟨clock, hclock⟩ := exists_clock requests
    obtain ⟨w, hcounted, -⟩ := served_answers hpos hsorted hclock host
    exact hcounted.twice t
  · -- Without a window the interval has no length.
    obtain ⟨rfl, hnone⟩ : cache = true ∧ cfg.windowLength ≤ 0 := by simpa using hpos
    have hzero : passed t (t + span cfg true) (logOf host (answers cfg true requests).2) = 0 := by
      refine List.countP_eq_zero.mpr fun x _ hx => ?_
      simp only [span, if_true, Bool.and_eq_true, decide_eq_true_eq] at hx
      omega
    rw [hzero]
    exact Nat.zero_le _

/-- The requests of an address that are not long ago. -/
def recent (cfg : Settings) (cache : Bool) (r : Request) (requests : List Request) : List Request :=
  requests.filter fun r' => r'.host = r.host ∧ r.now - span cfg cache < r'.now

theorem countP_logOf_le (answered : Answers) (host : String) (t : Int) :
    ((logOf host answered).countP fun h => decide (t < h.1)) ≤
      ((answered.map (·.1)).filter fun r => r.host = host ∧ t < r.now).length := by
  rw [logOf, List.countP_filterMap, ← List.countP_eq_length_filter, List.countP_map]
  refine List.countP_mono_left fun a _ hcounted => ?_
  revert hcounted
  cases a.2 with
  | error e => simp
  | ok exceeded =>
      by_cases hhost : a.1.host = host
      · simp [hhost]
      · simp [hhost]

/-- A request is let through when its address has made no more requests than the limit in the time
of a window, this one with them, whatever it has made before and whatever other addresses make. -/
theorem admits_under (cfg : Settings) (cache : Bool) (requests : List Request) (r : Request)
    (hpos : 0 < cfg.windowLength) (hlimit : cfg.requestLimit ≤ 2147483647)
    (hsorted : (requests ++ [r]).Pairwise fun r r' => r.now ≤ r'.now)
    (hunder : ((recent cfg cache r (requests ++ [r])).length : Int) ≤ cfg.requestLimit) :
    (checkRatelimit cfg cache (answers cfg cache requests).1 r).1 = .ok false := by
  obtain ⟨hbefore, -, hlast⟩ := List.pairwise_append.mp hsorted
  have hspan : 0 < span cfg cache := by
    unfold span
    split
    · exact hpos
    · omega
  obtain ⟨w, hcounted, hmatches⟩ := served_answers (fun _ => hpos) hbefore
    (fun r' hr' => hlast r' hr' r (List.mem_singleton_self r)) r.host
  have hcount := hcounted.count_le (Int.le_refl _) hspan
  have hlog := countP_logOf_le (answers cfg cache requests).2 r.host (r.now - span cfg cache)
  rw [fst_answers] at hlog
  have hrecent : (recent cfg cache r (requests ++ [r])).length =
      (requests.filter fun r' => r'.host = r.host ∧ r.now - span cfg cache < r'.now).length + 1 := by
    have hself : r.now - span cfg cache < r.now := by omega
    simp [recent, List.filter_append, hself]
  have hle : (hit (span cfg cache) w r.now).count ≤ cfg.requestLimit := by omega
  rcases hmatches.counts fun _ => hpos with ⟨hanswer, -⟩ | ⟨-, -, hfull⟩
  · rw [hanswer, decide_eq_false (Int.not_lt.mpr hle)]
  · have hroom : 2147483647 ≤ full cache := by cases cache <;> decide
    omega

/-! The bound is reached: three requests in three seconds, of two windows. -/

def twoAMinute : Settings := ⟨2, 60⟩

def secondWindow : List Request :=
  [⟨"127.0.0.1", 0⟩, ⟨"127.0.0.1", 59⟩, ⟨"127.0.0.1", 60⟩, ⟨"127.0.0.1", 61⟩]

theorem admitted_le_secondWindow :
    (admitted "127.0.0.1" 59 (59 + span twoAMinute true)
      (answers twoAMinute true secondWindow).2).length ≤ 2 * 2 - 1 :=
  admitted_le twoAMinute true secondWindow (by decide) "127.0.0.1" 59

example : (admitted "127.0.0.1" 59 (59 + span twoAMinute true)
    (answers twoAMinute true secondWindow).2).length = 3 := by
  decide +kernel

theorem admits_under_twoAMinute :
    (checkRatelimit twoAMinute true (answers twoAMinute true
      [⟨"127.0.0.1", 0⟩, ⟨"127.0.0.1", 59⟩, ⟨"192.0.2.1", 60⟩]).1 ⟨"127.0.0.1", 61⟩).1 =
        .ok false :=
  admits_under twoAMinute true [⟨"127.0.0.1", 0⟩, ⟨"127.0.0.1", 59⟩, ⟨"192.0.2.1", 60⟩]
    ⟨"127.0.0.1", 61⟩ (by decide) (by decide) (by decide) (by decide)

end Aurweb.Ratelimit
