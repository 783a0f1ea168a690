import Mathlib.Tactic.IntervalCases
import Bucktoot.Ports.KeyTable

/-!
# The key table over whole runs

A key is *held* when its latest event is a press (`Held`), whatever the table
says.  `table_exact` compares what the table and a scan of it say with the keys
that are held, in any run.  Its core is that a recorded key stays in its slot
as long as it is held, so that a scan which goes through all slots cannot miss
it, and that only an eleventh key can find the table full.  A scan is back
after at most ten of its reads, whatever the events do to the table meanwhile.
-/

namespace Bucktoot.Ports.KeyTable

open Bucktoot.Verified.FirstSlot
open Bucktoot.Verified.StepSystem

variable (r : Run step Sys.init)

/-- The latest event of the key before moment `n` is a press. -/
def Held (n : Nat) (k : Int) : Prop :=
  ∃ t < n, r.act t = .down k ∧ ∀ m, t < m → m < n → r.act m ≠ .up k

/-- `is_key_down` for the key is called in step `c` and is back at moment `n`
with the result. -/
structure Scans (c n : Nat) (k : Int) (result : Bool) : Prop where
  later : c < n
  inRun : n ≤ r.len
  call : r.act c = .call k
  back : (r.state n).scan = .returned k result
  underWay : ∀ m, c < m → m < n → ∃ i, (r.state m).scan = .reading k i

/-- **The table and the held keys.** -/
structure Exact : Prop where
  /-- A call of `is_key_down` is back with a result by its tenth read. -/
  returns : ∀ c n k, c < n → n ≤ r.len → r.act c = .call k →
    10 ≤ r.taken (· = .read) (c + 1) n →
    ∃ m result, m ≤ n ∧ Scans r c m k result
  /-- A call that is under way can take its next read at any moment. -/
  readsOn : ∀ n ≤ r.len, ∀ k i, (r.state n).scan = .reading k i →
    ∃ s, step (r.state n) .read = some s
  /-- No key is in two slots. -/
  distinct : ∀ n ≤ r.len, Distinct (r.state n).keyList
  /-- A recorded key stays in its slot as long as it is held. -/
  stays : ∀ m n, m ≤ n → n ≤ r.len → ∀ (i : Nat) (k : Int), k ≠ 0 →
    (r.state m).keyList[i]? = some k →
    (∀ t, m ≤ t → t ≤ n → Held r t k) →
    (r.state n).keyList[i]? = some k
  /-- What a scan finds was held at some moment of it. -/
  found : ∀ c n k, k ≠ 0 → Scans r c n k true →
    ∃ t, c < t ∧ t < n ∧ Held r t k
  /-- With at most ten keys held at every moment of the run, a scan finds a
  key that is held at every moment of it. -/
  finds :
    (∀ n ≤ r.len, ∀ keys : Finset Int, (∀ k ∈ keys, Held r n k) →
      keys.card ≤ 10) →
    ∀ c n k result, Scans r c n k result →
      (∀ t, c < t → t < n → Held r t k) → result = true

variable {r}

/-! ## Held keys -/

theorem not_held_zero (k : Int) : ¬ Held r 0 k := by
  rintro ⟨t, ht, -⟩
  omega

/-- A step presses a key, or leaves it held unless it releases it. -/
theorem held_succ (n : Nat) (k : Int) :
    Held r (n + 1) k ↔
      r.act n = .down k ∨ (Held r n k ∧ r.act n ≠ .up k) := by
  constructor
  · rintro ⟨t, ht, hdown, hsince⟩
    by_cases htn : t = n
    · rw [htn] at hdown
      exact .inl hdown
    · exact .inr ⟨⟨t, by omega, hdown, fun m h1 h2 => hsince m h1 (by omega)⟩,
        hsince n (by omega) (by omega)⟩
  · rintro (hdown | ⟨⟨t, ht, hdown, hsince⟩, hup⟩)
    · exact ⟨n, by omega, hdown, fun m h1 h2 => by omega⟩
    · refine ⟨t, by omega, hdown, ?_⟩
      intro m h1 h2
      by_cases hmn : m = n
      · rw [hmn]
        exact hup
      · exact hsince m h1 (by omega)

/-- Zero is no key. -/
theorem Held.ne_zero {n : Nat} {k : Int} (h : Held r n k) (hn : n ≤ r.len) :
    k ≠ 0 := by
  obtain ⟨t, ht, hdown, -⟩ := h
  have hnext := r.next_of_act (by omega) hdown
  rintro rfl
  simp [step] at hnext

/-! ## Recorded keys -/

theorem run_distinct {n : Nat} (hn : n ≤ r.len) :
    Distinct (r.state n).keyList := by
  apply r.invariant (fun s => Distinct s.keyList) ?_
    (fun _ _ _ hd h => step_distinct hd h) hn
  intro i j k hk hi _
  have hzero := List.eq_of_mem_replicate (List.mem_of_getElem? hi)
  exact absurd hzero hk

theorem run_length {n : Nat} (hn : n ≤ r.len) :
    (r.state n).keyList.length = 10 :=
  r.invariant (fun s => s.keyList.length = 10) rfl
    (fun _ _ _ hlen h => (step_length h).trans hlen) hn

/-- What is in the table is held. -/
theorem held_of_recorded {n : Nat} (hn : n ≤ r.len) {j : Nat} {k : Int}
    (hk : k ≠ 0) (hj : (r.state n).keyList[j]? = some k) : Held r n k := by
  induction n generalizing j with
  | zero =>
      rw [r.start] at hj
      exact absurd (List.eq_of_mem_replicate (List.mem_of_getElem? hj)) hk
  | succ n ih =>
      rw [held_succ]
      rcases step_slot (run_distinct (by omega)) (r.next n hn) hk hj with
        hdown | ⟨hbefore, hup⟩
      · exact .inl hdown
      · exact .inr ⟨ih (by omega) hbefore, hup⟩

/-- A recorded key stays in its slot while it is held. -/
theorem recorded_stays {m n : Nat} (hmn : m ≤ n) (hn : n ≤ r.len) {i : Nat}
    {k : Int} (hk : k ≠ 0) (hi : (r.state m).keyList[i]? = some k)
    (hheld : ∀ t, m < t → t ≤ n → Held r t k) :
    (r.state n).keyList[i]? = some k := by
  apply r.between (fun s => s.keyList[i]? = some k) hmn hi
  intro t hmt htn ht
  apply step_keeps (r.next t (by omega)) hk ht
  intro hup
  rcases (held_succ t k).1 (hheld (t + 1) (by omega) (by omega)) with
    hdown | ⟨-, hnot⟩
  · rw [hup] at hdown
    cases hdown
  · exact hnot hup

/-- A full table and one more key are eleven held keys. -/
theorem full_of_ten {n : Nat} (hn : n < r.len) {k : Int}
    (hdown : r.act n = .down k)
    (hfull : Full (fun x : Int => x = 0) (r.state n).keyList)
    (hnew : k ∉ (r.state n).keyList) :
    ∃ keys : Finset Int, (∀ x ∈ keys, Held r (n + 1) x) ∧ keys.card = 11 := by
  refine ⟨insert k (r.state n).keyList.toFinset, ?_, ?_⟩
  · intro x hx
    rw [held_succ]
    rcases Finset.mem_insert.1 hx with rfl | hx
    · exact .inl hdown
    · obtain ⟨j, hj⟩ := List.mem_iff_getElem?.1 (List.mem_toFinset.1 hx)
      refine .inr ⟨held_of_recorded (Nat.le_of_lt hn) (hfull j x hj) hj, ?_⟩
      rw [hdown]
      exact Action.noConfusion
  · rw [Finset.card_insert_of_notMem (by simpa using hnew),
      full_card (run_distinct (Nat.le_of_lt hn)) hfull,
      run_length (Nat.le_of_lt hn)]

/-- With at most ten keys held at every moment, what is held is in the
table. -/
theorem recorded_of_held
    (hten : ∀ n ≤ r.len, ∀ keys : Finset Int, (∀ k ∈ keys, Held r n k) →
      keys.card ≤ 10)
    {n : Nat} (hn : n ≤ r.len) {k : Int} (h : Held r n k) :
    ∃ j : Nat, (r.state n).keyList[j]? = some k := by
  induction n generalizing k with
  | zero => exact absurd h (not_held_zero k)
  | succ n ih =>
      have hk := h.ne_zero hn
      have hnext := r.next n hn
      rcases (held_succ n k).1 h with hdown | ⟨hbefore, hup⟩
      · rw [hdown] at hnext
        simp only [step, if_neg hk, Option.some.injEq] at hnext
        rw [← hnext]
        apply List.mem_iff_getElem?.1
        by_cases hin : k ∈ (r.state n).keyList
        · rw [setKeyDown, if_pos hin]
          exact hin
        · apply mem_setKeyDown
          intro hfull
          obtain ⟨keys, hkeys, hcard⟩ := full_of_ten hn hdown hfull hin
          have hle := hten (n + 1) hn keys hkeys
          omega
      · obtain ⟨j, hj⟩ := ih (by omega) hbefore
        exact ⟨j, step_keeps hnext hk hj hup⟩

/-! ## Scans -/

/-- Behind the call the reader is in front of the first slot. -/
theorem called {c : Nat} {k : Int} (hc : c < r.len)
    (hcall : r.act c = .call k) :
    (r.state (c + 1)).scan = .reading k 0 := by
  have hnext := r.next_of_act hc hcall
  obtain ⟨key, hact, -⟩ | ⟨key, hact, -⟩ | ⟨key, hact, -, hstate⟩ |
    ⟨key, i, hact, -⟩ := step_cases hnext
  · cases hact
  · cases hact
  · cases hact
    rw [hstate]
  · cases hact

theorem Scans.called {c n : Nat} {k : Int} {result : Bool}
    (h : Scans r c n k result) : (r.state (c + 1)).scan = .reading k 0 :=
  KeyTable.called (Nat.lt_of_lt_of_le h.later h.inRun) h.call

/-- The call for the key is in front of one of the ten slots. -/
def UnderWay (k : Int) (s : Sys) : Prop := ∃ i < 10, s.scan = .reading k i

/-- How many reads a call can still take. -/
def readsLeft (s : Sys) : Nat :=
  match s.scan with
  | .reading _ i => 10 - i
  | _ => 0

theorem UnderWay.readsLeft_pos {k : Int} {s : Sys} (h : UnderWay k s) :
    0 < readsLeft s := by
  obtain ⟨i, hi, hscan⟩ := h
  rw [readsLeft, hscan]
  exact Nat.sub_pos_of_lt hi

/-- A read that does not end the call uses up one of the ten. -/
theorem readsLeft_step {s s' : Sys} {a : Action} {k : Int}
    (h : step s a = some s') (hs : UnderWay k s) (hs' : UnderWay k s') :
    readsLeft s' + (if a = .read then 1 else 0) ≤ readsLeft s := by
  obtain ⟨i, hi, hscan⟩ := hs
  obtain ⟨i', -, hscan'⟩ := hs'
  rcases step_scan h hscan with ⟨hact, hsame⟩ | ⟨hact, rfl⟩
  · rw [if_neg hact, readsLeft, readsLeft, hscan, hsame]
    exact Nat.le_refl _
  · rw [if_pos hact, readsLeft, readsLeft, hscan]
    obtain ⟨-, hread⟩ | ⟨-, -, hread⟩ | ⟨-, -, hread⟩ := readSlot_scan s k i
    · rw [hread] at hscan'
      cases hscan'
    · rw [hread]
      dsimp only
      omega
    · rw [hread] at hscan'
      cases hscan'

/-- A call that is not under way any more has returned. -/
theorem underWay_step {s s' : Sys} {a : Action} {k : Int}
    (h : step s a = some s') (hlen : s.keyList.length = 10)
    (hs : UnderWay k s) (hs' : ¬ UnderWay k s') :
    ∃ result, s'.scan = .returned k result := by
  obtain ⟨i, hi, hscan⟩ := hs
  rcases step_scan h hscan with ⟨-, hsame⟩ | ⟨-, rfl⟩
  · exact absurd ⟨i, hi, hsame⟩ hs'
  · obtain ⟨-, hread⟩ | ⟨-, hmore, hread⟩ | ⟨-, -, hread⟩ :=
      readSlot_scan s k i
    · exact ⟨true, hread⟩
    · exact absurd ⟨i + 1, by omega, hread⟩ hs'
    · exact ⟨false, hread⟩

/-- **A call comes back.**  Ten reads are enough, whatever lies between
them. -/
theorem scans_of_taken {c n : Nat} {k : Int} (hcn : c < n) (hn : n ≤ r.len)
    (hcall : r.act c = .call k)
    (htaken : 10 ≤ r.taken (· = .read) (c + 1) n) :
    ∃ m result, m ≤ n ∧ Scans r c m k result := by
  have hfirst : UnderWay k (r.state (c + 1)) :=
    ⟨0, by decide, called (by omega) hcall⟩
  have hleft : readsLeft (r.state (c + 1)) ≤ 10 := by
    rw [readsLeft, called (by omega) hcall]
  obtain ⟨t, hct, htn, hends⟩ := r.exists_exit (A := (· = .read))
    (UnderWay k) readsLeft (show c + 1 ≤ n from hcn)
    (fun i _ hin => readsLeft_step (r.next i (by omega)))
    UnderWay.readsLeft_pos (Nat.le_trans hleft htaken)
  -- the call is back at the first moment at which it is not under way
  obtain ⟨m, hcm, hmt, hon, hoff⟩ :=
    exists_fall (P := fun i => UnderWay k (r.state i)) hct hfirst hends
  obtain ⟨result, hback⟩ := underWay_step (r.next m (by omega))
    (run_length (by omega)) (hon m hcm (Nat.le_refl m)) hoff
  refine ⟨m + 1, result, by omega,
    ⟨by omega, by omega, hcall, hback, fun i hci him => ?_⟩⟩
  obtain ⟨j, -, hj⟩ := hon i hci (by omega)
  exact ⟨j, hj⟩

/-- A call that is under way has read every slot in front of it without
finding the key there. -/
theorem scan_missed {c n : Nat} {k : Int} {result : Bool}
    (h : Scans r c n k result) {m : Nat} (hcm : c < m) (hmn : m < n) {i : Nat}
    (hi : (r.state m).scan = .reading k i) :
    ∀ j < i, ∃ t, c < t ∧ t < m ∧ (r.state t).keyList[j]? ≠ some k := by
  obtain ⟨d, rfl⟩ := Nat.exists_eq_add_of_lt hcm
  induction d generalizing i with
  | zero =>
      have hfirst := h.called
      rw [show c + 0 + 1 = c + 1 from rfl, hfirst] at hi
      cases hi
      intro j hj
      omega
  | succ d ih =>
      obtain ⟨i₀, hi₀⟩ := h.underWay (c + d + 1) (by omega) (by omega)
      have hbefore := ih (by omega) (by omega) hi₀
      have hlt : c + d + 1 < r.len := by
        have := h.inRun
        omega
      change (r.state (c + d + 1 + 1)).scan = .reading k i at hi
      intro j hj
      rcases step_scan (r.next _ hlt) hi₀ with ⟨-, hsame⟩ | ⟨-, hread⟩
      · -- the step was an event
        rw [hi] at hsame
        cases hsame
        obtain ⟨t, h1, h2, ht⟩ := hbefore j hj
        exact ⟨t, h1, by omega, ht⟩
      · -- the step read slot `i₀`
        rw [hread] at hi
        obtain ⟨-, hscan⟩ | ⟨hmiss, -, hscan⟩ | ⟨-, -, hscan⟩ :=
          readSlot_scan (r.state (c + d + 1)) k i₀
        · rw [hscan] at hi
          cases hi
        · rw [hscan] at hi
          cases hi
          by_cases hji : j = i₀
          · exact ⟨c + d + 1, by omega, by omega, by rw [hji]; exact hmiss⟩
          · obtain ⟨t, h1, h2, ht⟩ := hbefore j (by omega)
            exact ⟨t, h1, by omega, ht⟩
        · rw [hscan] at hi
          cases hi

/-- The last read of a call. -/
theorem Scans.last {c n : Nat} {k : Int} {result : Bool}
    (h : Scans r c n k result) :
    ∃ m i, n = m + 1 ∧ c < m ∧ (r.state m).scan = .reading k i ∧
      r.state n = readSlot (r.state m) k i := by
  obtain ⟨m, rfl⟩ : ∃ m, n = m + 1 := ⟨n - 1, by have := h.later; omega⟩
  have hlater := h.later
  have hlen := h.inRun
  have hback := h.back
  have hcm : c < m := by
    apply Nat.lt_of_le_of_ne (Nat.le_of_lt_succ hlater)
    -- a call that has just been made is not back
    rintro rfl
    rw [h.called] at hback
    cases hback
  obtain ⟨i, hi⟩ := h.underWay m hcm (by omega)
  refine ⟨m, i, rfl, hcm, hi, ?_⟩
  rcases step_scan (r.next m (by omega)) hi with ⟨-, hsame⟩ | ⟨-, hread⟩
  · rw [hback] at hsame
    cases hsame
  · exact hread

/-- A scan that finds the key has seen it in the table. -/
theorem Scans.seen {c n : Nat} {k : Int} (h : Scans r c n k true) :
    ∃ t, c < t ∧ t < n ∧ ∃ i : Nat, (r.state t).keyList[i]? = some k := by
  obtain ⟨m, i, rfl, hcm, hi, hread⟩ := h.last
  have hback := h.back
  rw [hread] at hback
  obtain ⟨hhit, -⟩ | ⟨-, -, hscan⟩ | ⟨-, -, hscan⟩ :=
    readSlot_scan (r.state m) k i
  · exact ⟨m, hcm, Nat.lt_succ_self m, i, hhit⟩
  · rw [hscan] at hback
    cases hback
  · rw [hscan] at hback
    cases hback

/-- A scan that does not find the key has missed it in every slot. -/
theorem Scans.missed {c n : Nat} {k : Int} (h : Scans r c n k false) :
    ∀ j < 10, ∃ t, c < t ∧ t < n ∧ (r.state t).keyList[j]? ≠ some k := by
  obtain ⟨m, i, rfl, hcm, hi, hread⟩ := h.last
  have hlen := h.inRun
  have hbefore := scan_missed h hcm (Nat.lt_succ_self m) hi
  have hlength : (r.state m).keyList.length = 10 := run_length (by omega)
  have hback := h.back
  rw [hread] at hback
  obtain ⟨-, hscan⟩ | ⟨-, -, hscan⟩ | ⟨hmiss, hlast, -⟩ :=
    readSlot_scan (r.state m) k i
  · rw [hscan] at hback
    cases hback
  · rw [hscan] at hback
    cases hback
  · intro j hj
    by_cases hji : j = i
    · exact ⟨m, hcm, Nat.lt_succ_self m, by rw [hji]; exact hmiss⟩
    · obtain ⟨t, h1, h2, ht⟩ := hbefore j (by omega)
      exact ⟨t, h1, by omega, ht⟩

variable (r)

/-- **The table reports the held keys**, also to a reader that scans it while
events arrive. -/
theorem table_exact : Exact r where
  returns := fun c n k hcn hn hcall htaken =>
    scans_of_taken hcn hn hcall htaken
  readsOn := fun n _ k i hscan => ⟨readSlot (r.state n) k i, by
    simp only [step, hscan]⟩
  distinct := fun n hn => run_distinct hn
  stays := fun m n hmn hn i k hk hi hheld =>
    recorded_stays hmn hn hk hi (fun t h1 h2 => hheld t (Nat.le_of_lt h1) h2)
  found := by
    intro c n k hk h
    obtain ⟨t, hct, htn, i, hi⟩ := h.seen
    have hlen := h.inRun
    exact ⟨t, hct, htn, held_of_recorded (by omega) hk hi⟩
  finds := by
    intro hten c n k result h hheld
    cases result with
    | true => rfl
    | false =>
        -- the key is in one slot from the call on, but was missed there
        have hlen := h.inRun
        obtain ⟨m, _, hnm, hcm, -⟩ := h.last
        have hfirst := hheld (c + 1) (by omega) (by omega)
        have hk : k ≠ 0 := hfirst.ne_zero (by omega)
        obtain ⟨j, hj⟩ := recorded_of_held hten (by omega) hfirst
        have hj10 : j < 10 := by
          rw [← run_length (r := r) (n := c + 1) (by omega)]
          exact (List.getElem?_eq_some_iff.1 hj).1
        obtain ⟨t, hct, htn, hmiss⟩ := h.missed j hj10
        exact absurd (recorded_stays (show c + 1 ≤ t from hct) (by omega)
          hk hj (fun u h1 h2 => hheld u (by omega) (by omega))) hmiss

/-- Two presses and a scan for the second key, which finds it behind a release
of the first; then a scan for the released key, which reads all ten slots. -/
def scanned : List Action :=
  [.down 3, .down 5, .call 5, .read, .up 3, .read, .call 3, .read, .read,
    .down 7, .read, .read, .read, .read, .read, .read, .read, .read]

theorem scanned_possible :
    (exec step scanned Sys.init).isSome = true := by decide

/-- The run that takes these actions. -/
def scannedRun : Run step Sys.init :=
  .ofExec scanned .read (Option.some_get scanned_possible).symm

theorem scannedRun_finds : Scans scannedRun 2 6 5 true where
  later := by decide
  inRun := by decide
  call := rfl
  back := rfl
  underWay := by
    intro m hm hm'
    interval_cases m <;> exact ⟨_, rfl⟩

theorem scannedRun_misses : Scans scannedRun 6 18 3 false where
  later := by decide
  inRun := by decide
  call := rfl
  back := rfl
  underWay := by
    intro m hm hm'
    interval_cases m <;> exact ⟨_, rfl⟩

/-- Both scans of the run are finished.  The key that the first one finds was
held during it, and with its ten reads the second one had to come back. -/
theorem table_exact_scannedRun :
    Scans scannedRun 2 6 5 true ∧ Scans scannedRun 6 18 3 false ∧
      (∃ t, 2 < t ∧ t < 6 ∧ Held scannedRun t 5) ∧
      ∃ m result, m ≤ 18 ∧ Scans scannedRun 6 m 3 result :=
  ⟨scannedRun_finds, scannedRun_misses,
    (table_exact scannedRun).found 2 6 5 (by decide) scannedRun_finds,
    (table_exact scannedRun).returns 6 18 3 (by decide) (by decide) rfl
      (by decide)⟩

end Bucktoot.Ports.KeyTable
