import CausalBroadcast.Output.Numbered

/-!
# What `testlocal.py` decides

For a membership file with five processes and logs whose lines are numbered one after
the other, the script prints `True` exactly when every process delivers in order
(`testlocal_decides`): the line `d q k` comes when the log of `q` has a line `b k`, and
with at least as many deliveries from `q` itself, and from each process that `q` lists,
as the log of `q` has before its line `b k`.

The messages are matched by their numbers `k`, which the log of a process counts, so
they are not the messages of the broadcast layer (`Causal/LogOrder.lean`).
-/

namespace CausalBroadcast

/-! ## The part of a log that a broadcast depends on -/

def LogLine.delivery? : LogLine → Option (ℕ × ℕ)
  | broadcast _ => none
  | deliver q k => some (q, k)

/-- The deliveries from the listed processes, as the script collects them. -/
def collected (listed : List ℕ) (log : List LogLine) : List (ℤ × ℤ) :=
  ((log.filterMap LogLine.delivery?).filter fun d => d.1 ∈ listed).map fun d => (d.1, d.2)

/-- The lines before the line `b i`. -/
def linesBefore (i : ℕ) (log : List LogLine) : List LogLine :=
  log.takeWhile fun line => line ≠ .broadcast i

/-- The processes that the script knows. -/
def IsLocalPid (p : ℕ) : Prop := 1 ≤ p ∧ p ≤ 5

instance (p : ℕ) : Decidable (IsLocalPid p) := inferInstanceAs (Decidable (_ ∧ _))

/-- A line `d q k` that follows the lines `pre` finds in them the deliveries that the log
of `q` has before its line `b k`. -/
def ComesInOrder (deps : ℕ → List ℕ) (logs : ℕ → List LogLine) (pre : List LogLine) (q k : ℕ) :
    Prop :=
  IsLocalPid q ∧ .broadcast k ∈ logs q ∧
    ∀ x ∈ q :: deps q, deliverLines x (linesBefore k (logs q)) ≤ deliverLines x pre

/-- Every line `d q k` of a log comes in order. -/
def DeliversInOrder (deps : ℕ → List ℕ) (logs : ℕ → List LogLine) (log : List LogLine) : Prop :=
  ∀ pre q k, pre ++ [.deliver q k] <+: log → ComesInOrder deps logs pre q k

section Collected

variable {listed : List ℕ} {log : List LogLine}

@[simp] theorem collected_concat_broadcast (i : ℕ) :
    collected listed (log ++ [.broadcast i]) = collected listed log := by
  simp [collected, LogLine.delivery?]

theorem collected_concat_deliver (q k : ℕ) : collected listed (log ++ [.deliver q k]) =
    collected listed log ++ if q ∈ listed then [((q : ℤ), (k : ℤ))] else [] := by
  unfold collected
  rw [List.filterMap_append, List.filter_append, List.map_append]
  congr 1
  split
  · next h => simp [LogLine.delivery?, h]
  · next h => simp [LogLine.delivery?, h]

theorem mem_collected {a : ℤ × ℤ} : a ∈ collected listed log ↔
    ∃ x ∈ listed, ∃ n : ℕ, .deliver x n ∈ log ∧ a = ((x : ℤ), (n : ℤ)) := by
  constructor
  · intro ha
    obtain ⟨⟨x, n⟩, hd, rfl⟩ := List.mem_map.mp ha
    obtain ⟨hd, hx⟩ := List.mem_filter.mp hd
    obtain ⟨line, hline, hdelivery⟩ := List.mem_filterMap.mp hd
    cases line with
    | broadcast i => cases hdelivery
    | deliver q k =>
        cases hdelivery
        exact ⟨x, by simpa using hx, n, hline, rfl⟩
  · rintro ⟨x, hx, n, hline, rfl⟩
    refine List.mem_map.mpr ⟨(x, n), List.mem_filter.mpr ⟨?_, by simpa using hx⟩, rfl⟩
    exact List.mem_filterMap.mpr ⟨_, hline, rfl⟩

/-- The numbers of the lines `d q k` are those up to their number. -/
theorem Consecutive.deliver_mem_iff (h : Consecutive log) {q k : ℕ} :
    .deliver q k ∈ log ↔ 1 ≤ k ∧ k ≤ deliverLines q log := by
  induction log using List.reverseRecOn with
  | nil => simp; omega
  | append_singleton log line ih =>
      obtain ⟨hlog, hline⟩ := InSequence.concat_iff.mp h
      have ih := ih hlog
      rw [List.mem_append, ih, List.mem_singleton]
      cases line with
      | broadcast i => simp
      | deliver r n =>
          have hn : n = deliverLines r log + 1 := hline
          rw [deliverLines_concat_deliver, LogLine.deliver.injEq]
          by_cases hr : r = q
          · subst hr
            rw [if_pos rfl]
            omega
          · rw [if_neg hr]
            constructor
            · rintro (hmem | ⟨rfl, -⟩)
              · exact hmem
              · exact absurd rfl hr
            · exact .inl

/-- The numbers of the lines `b i` are those up to their number. -/
theorem Consecutive.broadcast_mem_iff (h : Consecutive log) {i : ℕ} :
    .broadcast i ∈ log ↔ 1 ≤ i ∧ i ≤ broadcastLines log := by
  induction log using List.reverseRecOn with
  | nil => simp; omega
  | append_singleton log line ih =>
      obtain ⟨hlog, hline⟩ := InSequence.concat_iff.mp h
      have ih := ih hlog
      rw [List.mem_append, ih, List.mem_singleton]
      cases line with
      | deliver r n => simp
      | broadcast j =>
          have hj : j = broadcastLines log + 1 := hline
          rw [broadcastLines_concat_broadcast, LogLine.broadcast.injEq]
          omega

/-- The script finds all of the collected deliveries in another log exactly when that has
as many lines of each listed process. -/
theorem collected_le_iff (h : Consecutive log) (count : ℕ → ℕ) :
    (∀ x ∈ listed, ∀ n : ℕ, .deliver x n ∈ log → n ≤ count x) ↔
      ∀ x ∈ listed, deliverLines x log ≤ count x := by
  constructor
  · intro hall x hx
    by_cases hzero : deliverLines x log = 0
    · rw [hzero]
      exact Nat.zero_le _
    · exact hall x hx _ (h.deliver_mem_iff.mpr ⟨Nat.one_le_iff_ne_zero.mpr hzero, le_rfl⟩)
  · intro hall x hx n hn
    exact (h.deliver_mem_iff.mp hn).2.trans (hall x hx)

theorem linesBefore_isPrefixOf (i : ℕ) (log : List LogLine) : linesBefore i log <+: log :=
  List.takeWhile_prefix _

theorem linesBefore_of_mem {i : ℕ} (hi : .broadcast i ∈ log) (line : LogLine) :
    linesBefore i (log ++ [line]) = linesBefore i log := by
  induction log with
  | nil => cases hi
  | cons first log ih =>
      unfold linesBefore at ih ⊢
      rw [List.cons_append, List.takeWhile_cons, List.takeWhile_cons]
      by_cases hfirst : first = .broadcast i
      · simp [hfirst]
      · have hrest : .broadcast i ∈ log := by
          rcases List.mem_cons.mp hi with heq | hrest
          · exact absurd heq.symm hfirst
          · exact hrest
        rw [ih hrest]

theorem linesBefore_concat_self {i : ℕ} (hi : .broadcast i ∉ log) :
    linesBefore i (log ++ [.broadcast i]) = log := by
  unfold linesBefore
  rw [List.takeWhile_append_of_pos]
  · simp
  · intro line hline
    have hne : line ≠ .broadcast i := by
      rintro rfl
      exact hi hline
    simpa using hne

end Collected

/-! ## The lists of the membership file -/

theorem mapM_pyInt_decimal (ns : List ℕ) :
    (ns.map decimal).mapM pyInt = .ok (ns.map fun n : ℕ => (n : ℤ)) := by
  induction ns with
  | nil => rfl
  | cons n ns ih =>
      rw [List.map_cons, List.mapM_cons, pyInt_decimal, ih]
      rfl

/-- `depend` holds, for each pid, what the line of the pid says. -/
def DependsOn (deps : ℕ → List ℕ) (depend : Depend) : Prop :=
  ∀ p : ℕ, IsLocalPid p → depend p = some ((p :: deps p).map fun q : ℕ => (q : ℤ))

theorem readDepend_itemLines (trailing : ℕ → Bool) (lists : List (List ℕ)) (pid : ℕ)
    (depend : Depend) : ∃ depend', readDepend pid (itemLines depWords trailing pid lists) depend =
      .ok depend' ∧ (∀ p, p < pid → depend' p = depend p) ∧
      ∀ j, j < lists.length →
        depend' (pid + j : ℕ) = some (((pid + j) :: lists.getD j []).map fun q : ℕ => (q : ℤ)) := by
  induction lists generalizing pid depend with
  | nil => exact ⟨depend, rfl, fun _ _ => rfl, fun j hj => absurd hj (Nat.not_lt_zero j)⟩
  | cons list lists ih =>
      obtain ⟨depend', hread, hbefore, hafter⟩ := ih (pid + 1)
        (Function.update depend pid (some ((pid :: list).map fun q : ℕ => (q : ℤ))))
      refine ⟨depend', ?_, fun p hp => ?_, fun j hj => ?_⟩
      · rw [itemLines, readDepend, pySplit_lineText (isPyWord_depWords pid list), depWords,
          mapM_pyInt_decimal]
        exact_mod_cast hread
      · rw [hbefore p (by omega), Function.update_of_ne (by exact_mod_cast hp.ne)]
      · cases j with
        | zero =>
            rw [Nat.add_zero, hbefore pid (Nat.lt_succ_self pid), Function.update_self]
            rfl
        | succ j =>
            rw [show pid + (j + 1) = pid + 1 + j by omega,
              hafter j (Nat.lt_of_succ_lt_succ hj), List.getD_cons_succ]

/-- The list of `pid`. -/
def Layout.deps (layout : Layout) (pid : ℕ) : List ℕ := layout.dependencies.getD (pid - 1) []

/-- The script skips the lines of five processes. -/
theorem dependOf_layout (layout : Layout) (trailing : Trailing) (hfive : layout.hosts.length = 5) :
    ∃ depend, dependOf (layout.text trailing) = .ok depend ∧ DependsOn layout.deps depend := by
  obtain ⟨depend, hread, -, hdepend⟩ :=
    readDepend_itemLines trailing.dependencies layout.dependencies 1 fun _ => none
  have hskip : ((decimal layout.hosts.length ++ lineEnd trailing.first) ::
      (itemLines hostWords trailing.hosts 1 layout.hosts ++
        itemLines depWords trailing.dependencies 1 layout.dependencies)).drop 6 =
      itemLines depWords trailing.dependencies 1 layout.dependencies := by
    rw [List.drop_succ_cons]
    exact List.drop_left' (by rw [length_itemLines, hfive])
  refine ⟨depend, ?_, fun p ⟨hfirst, hlast⟩ => ?_⟩
  · unfold dependOf
    simp only [pyLines_layout, hskip]
    rw [if_neg (by simp [hfive])]
    exact_mod_cast hread
  · have hj := hdepend (p - 1) (by rw [layout.length_dependencies, hfive]; omega)
    rw [show 1 + (p - 1) = p by omega] at hj
    exact hj

/-! ## The first loop over the outputs -/

section Map

variable {depend : Depend} {p : ℕ} {listed : List ℕ} {old mapping : Mapping}

theorem head?_broadcast (i : ℕ) : (LogLine.broadcast i).text.head? = some 'b' := rfl

theorem head?_deliver (q k : ℕ) : (LogLine.deliver q k).text.head? = some 'd' := rfl

theorem splitBroadcast_text {i : ℕ} (hi : i < 2 ^ 32) :
    splitBroadcast (LogLine.broadcast i).text = .ok (decimal i) := by
  rw [splitBroadcast, pySplit_text, LogLine.words, u32_of_lt hi]

theorem splitDelivery_text {q k : ℕ} (hq : q < 2 ^ 32) (hk : k < 2 ^ 32) :
    splitDelivery (LogLine.deliver q k).text = .ok (decimal q, decimal k) := by
  rw [splitDelivery, pySplit_text, LogLine.words, u32_of_lt hq, u32_of_lt hk]

theorem mapLines_broadcast {i : ℕ} (hi : i < 2 ^ 32) (lines : List (List Char))
    (s : List (ℤ × ℤ)) (mapping : Mapping) :
    mapLines depend p ((LogLine.broadcast i).text :: lines) s mapping =
      mapLines depend p lines s (Function.update mapping ((p : ℤ), (i : ℤ)) (some s)) := by
  rw [mapLines, head?_broadcast, if_neg (by decide), if_pos rfl, splitBroadcast_text hi]
  show (do let mNr ← pyInt (decimal i); _) = _
  rw [pyInt_decimal]
  rfl

theorem mapLines_deliver (hdepend : depend p = some (listed.map fun q : ℕ => (q : ℤ))) {q k : ℕ}
    (hq : q < 2 ^ 32) (hk : k < 2 ^ 32) (lines : List (List Char)) (s : List (ℤ × ℤ))
    (mapping : Mapping) : mapLines depend p ((LogLine.deliver q k).text :: lines) s mapping =
      mapLines depend p lines (s ++ if q ∈ listed then [((q : ℤ), (k : ℤ))] else []) mapping := by
  have hlisted : (q : ℤ) ∈ (listed.map fun q : ℕ => (q : ℤ)) ↔ q ∈ listed := by
    simp
  rw [mapLines, head?_deliver, if_pos rfl, splitDelivery_text hq hk]
  simp only [Bind.bind, Except.bind, pyInt_decimal, hdepend, orRaise, hlisted]
  by_cases h : q ∈ listed
  · rw [if_pos h, if_pos h]
  · rw [if_neg h, if_neg h, List.append_nil]

/-- The entries of `p` are those of a log, and the entries of the others have not changed. -/
def Snapshots (p : ℕ) (listed : List ℕ) (log : List LogLine) (old mapping : Mapping) : Prop :=
  (∀ i : ℕ, mapping (p, i) =
    if .broadcast i ∈ log then some (collected listed (linesBefore i log)) else old (p, i)) ∧
  ∀ key : ℤ × ℤ, key.1 ≠ p → mapping key = old key

theorem Snapshots.broadcast {log : List LogLine} (h : Snapshots p listed log old mapping) {i : ℕ}
    (hi : .broadcast i ∉ log) : Snapshots p listed (log ++ [.broadcast i]) old
      (Function.update mapping ((p : ℤ), (i : ℤ)) (some (collected listed log))) := by
  refine ⟨fun j => ?_, fun key hkey => ?_⟩
  · by_cases hj : j = i
    · subst hj
      rw [Function.update_self, if_pos (by simp), linesBefore_concat_self hi]
    · rw [Function.update_of_ne (by simp [hj]), h.1 j]
      by_cases hmem : .broadcast j ∈ log
      · rw [if_pos hmem, if_pos (List.mem_append_left _ hmem), linesBefore_of_mem hmem]
      · rw [if_neg hmem, if_neg (by simp [hmem, hj])]
  · rw [Function.update_of_ne ?_, h.2 key hkey]
    rintro rfl
    exact hkey rfl

theorem Snapshots.deliver {log : List LogLine} (h : Snapshots p listed log old mapping)
    (q k : ℕ) : Snapshots p listed (log ++ [.deliver q k]) old mapping := by
  refine ⟨fun j => ?_, h.2⟩
  rw [h.1 j]
  by_cases hmem : .broadcast j ∈ log
  · rw [if_pos hmem, if_pos (List.mem_append_left _ hmem), linesBefore_of_mem hmem]
  · rw [if_neg hmem, if_neg (by simp [hmem])]

theorem mapLines_log (hdepend : depend p = some (listed.map fun q : ℕ => (q : ℤ)))
    (rest pre : List LogLine) (mapping : Mapping) (hrest : ∀ line ∈ rest, line.IsU32)
    (hconsecutive : Consecutive (pre ++ rest)) (h : Snapshots p listed pre old mapping) :
    ∃ mapping', mapLines depend p (rest.map LogLine.text) (collected listed pre) mapping =
      .ok mapping' ∧ Snapshots p listed (pre ++ rest) old mapping' := by
  induction rest generalizing pre mapping with
  | nil =>
      rw [List.append_nil]
      exact ⟨mapping, rfl, h⟩
  | cons line rest ih =>
      have hsplit : pre ++ line :: rest = (pre ++ [line]) ++ rest := by simp
      rw [hsplit] at hconsecutive ⊢
      have hline : line.IsU32 := hrest line List.mem_cons_self
      have hlater : ∀ line ∈ rest, line.IsU32 := fun l hl => hrest l (List.mem_cons_of_mem _ hl)
      obtain ⟨hpre, hnext⟩ := InSequence.concat_iff.mp (hconsecutive.mono (List.prefix_append ..))
      cases line with
      | broadcast i =>
          have hnew : .broadcast i ∉ pre := by
            intro hmem
            have hle := ((Consecutive.broadcast_mem_iff hpre).mp hmem).2
            have hi : i = broadcastLines pre + 1 := hnext
            omega
          rw [List.map_cons, mapLines_broadcast hline, ← collected_concat_broadcast i]
          refine ih (pre ++ [.broadcast i]) _ hlater hconsecutive ?_
          rw [collected_concat_broadcast]
          exact h.broadcast hnew
      | deliver q k =>
          rw [List.map_cons, mapLines_deliver hdepend hline.1 hline.2, ← collected_concat_deliver]
          exact ih (pre ++ [.deliver q k]) mapping hlater hconsecutive (h.deliver q k)

end Map

/-- An output file of the directory. -/
def outFile (logs : ℕ → List LogLine) (p : ℕ) : List Char × List Char :=
  (logFilenameText p, outputText (logs p))

theorem processOf_logFilenameText {p : ℕ} (hp : IsLocalPid p) :
    processOf (logFilenameText p) = .ok (p : ℤ) := by
  obtain ⟨hfirst, hlast⟩ := hp
  interval_cases p <;> rfl

/-- What is asked of the logs. -/
structure LocalLogs (logs : ℕ → List LogLine) : Prop where
  isU32 : ∀ p, IsLocalPid p → ∀ line ∈ logs p, line.IsU32
  consecutive : ∀ p, IsLocalPid p → Consecutive (logs p)

/-- `Mapping` after the first loop over the outputs of some processes. -/
structure MapsLogs (deps : ℕ → List ℕ) (logs : ℕ → List LogLine) (pids : List ℕ)
    (old mapping : Mapping) : Prop where
  found : ∀ p ∈ pids, ∀ i : ℕ, .broadcast i ∈ logs p →
    mapping (p, i) = some (collected (p :: deps p) (linesBefore i (logs p)))
  missing : ∀ p i : ℕ, .broadcast i ∉ logs p → mapping (p, i) = old (p, i)
  others : ∀ key : ℤ × ℤ, (∀ p ∈ pids, key.1 ≠ p) → mapping key = old key

section Files

variable {deps : ℕ → List ℕ} {logs : ℕ → List LogLine} {depend : Depend} {mapping : Mapping}

theorem mapFiles_logs (hdepend : DependsOn deps depend) (hlogs : LocalLogs logs) (pids : List ℕ)
    (hpids : ∀ p ∈ pids, IsLocalPid p) (old : Mapping) : ∃ mapping,
      mapFiles depend (pids.map (outFile logs)) old = .ok mapping ∧
      MapsLogs deps logs pids old mapping := by
  induction pids generalizing old with
  | nil =>
      refine ⟨old, rfl, ?_, fun _ _ _ => rfl, fun _ _ => rfl⟩
      intro p hp
      cases hp
  | cons p pids ih =>
      have hp := hpids p List.mem_cons_self
      have hstart : Snapshots p (p :: deps p) [] old old := ⟨fun i => rfl, fun _ _ => rfl⟩
      obtain ⟨middle, hmiddle, hsnapshots⟩ := mapLines_log (hdepend p hp) (logs p) [] old
        (hlogs.isU32 p hp) (hlogs.consecutive p hp) hstart
      obtain ⟨mapping, hmapping, h⟩ := ih (fun q hq => hpids q (List.mem_cons_of_mem _ hq)) middle
      refine ⟨mapping, ?_, fun q hq i hi => ?_, fun q i hi => ?_, fun key hkey => ?_⟩
      · rw [List.map_cons, mapFiles, outFile]
        simp only [processOf_logFilenameText hp, pyLines_outputText, Bind.bind, Except.bind]
        rw [show ([] : List (ℤ × ℤ)) = collected (p :: deps p) [] from rfl, hmiddle]
        exact hmapping
      · by_cases hqin : q ∈ pids
        · exact h.found q hqin i hi
        · obtain rfl : q = p := by
            rcases List.mem_cons.mp hq with hqp | hq
            · exact hqp
            · exact absurd hq hqin
          rw [h.others _ fun r hr => ?_, hsnapshots.1 i]
          · exact if_pos hi
          · rintro heq
            obtain rfl : q = r := Int.ofNat.inj heq
            exact hqin hr
      · rw [h.missing q i hi]
        by_cases hqp : q = p
        · subst hqp
          rw [hsnapshots.1 i]
          exact if_neg hi
        · exact hsnapshots.2 _ fun heq => hqp (Int.ofNat.inj heq)
      · rw [h.others key fun q hq => hkey q (List.mem_cons_of_mem _ hq)]
        exact hsnapshots.2 key (hkey p List.mem_cons_self)

end Files

/-! ## The second loop over the outputs -/

/-- `delivered`, after some lines. -/
def deliveredAfter (log : List LogLine) : List ℤ :=
  [1, 2, 3, 4, 5].map fun q => (deliverLines q log : ℤ)

section Check

variable {pre : List LogLine}

theorem pyGet_deliveredAfter {q : ℕ} (hq : IsLocalPid q) :
    pyGet (deliveredAfter pre) ((q : ℤ) - 1) = .ok (deliverLines q pre : ℤ) := by
  obtain ⟨hfirst, hlast⟩ := hq
  interval_cases q <;> rfl

theorem pySet_deliveredAfter {q : ℕ} (hq : IsLocalPid q) {k : ℕ}
    (hk : k = deliverLines q pre + 1) : pySet (deliveredAfter pre) ((q : ℤ) - 1) k =
      .ok (deliveredAfter (pre ++ [.deliver q k])) := by
  subst hk
  obtain ⟨hfirst, hlast⟩ := hq
  unfold deliveredAfter
  simp only [deliverLines_concat_deliver]
  interval_cases q <;> rfl

/-- The loop over `did` asks for every delivery that was collected. -/
theorem checkDid_collected (pre : List LogLine) (listed : List ℕ)
    (hlisted : ∀ x ∈ listed, IsLocalPid x) (did : List (ℤ × ℤ))
    (hdid : ∀ a ∈ did, ∃ x ∈ listed, ∃ n : ℕ, a = ((x : ℤ), (n : ℤ))) :
    ∃ done, checkDid (deliveredAfter pre) did = .ok done ∧
      (done = true ↔ ∀ x n : ℕ, ((x : ℤ), (n : ℤ)) ∈ did → n ≤ deliverLines x pre) := by
  induction did with
  | nil => exact ⟨true, rfl, iff_of_true rfl fun x n hn => absurd hn List.not_mem_nil⟩
  | cons a did ih =>
      obtain ⟨x, hx, n, rfl⟩ := hdid a List.mem_cons_self
      obtain ⟨done, hdone, hiff⟩ := ih fun b hb => hdid b (List.mem_cons_of_mem _ hb)
      rw [checkDid]
      simp only [pyGet_deliveredAfter (hlisted x hx), Bind.bind, Except.bind]
      by_cases hle : n ≤ deliverLines x pre
      · refine ⟨done, ?_, hiff.trans ⟨fun hall y m hm => ?_, fun hall y m hm => ?_⟩⟩
        · rw [if_neg (by exact_mod_cast not_lt.mpr hle), hdone]
        · rcases List.mem_cons.mp hm with heq | hm
          · obtain ⟨hyx, hmn⟩ := Prod.mk.inj heq
            rwa [show y = x from Int.ofNat.inj hyx, show m = n from Int.ofNat.inj hmn]
          · exact hall y m hm
        · exact hall y m (List.mem_cons_of_mem _ hm)
      · refine ⟨false, if_pos (by exact_mod_cast not_le.mp hle), ?_⟩
        exact iff_of_false Bool.false_ne_true fun hall => hle (hall x n List.mem_cons_self)

end Check

/-- Every prefix that ends in a delivery starts with the first line, or is it. -/
theorem forall_prefix_cons {line : LogLine} {rest : List LogLine}
    {holds : List LogLine → ℕ → ℕ → Prop} :
    (∀ mid q k, mid ++ [.deliver q k] <+: line :: rest → holds mid q k) ↔
      (∀ q k, line = .deliver q k → holds [] q k) ∧
      ∀ mid q k, mid ++ [.deliver q k] <+: rest → holds (line :: mid) q k := by
  constructor
  · intro hall
    refine ⟨fun q k hline => hall [] q k ?_, fun mid q k hmid => hall (line :: mid) q k ?_⟩
    · rw [hline]
      exact ⟨rest, rfl⟩
    · exact List.cons_prefix_cons.mpr ⟨rfl, hmid⟩
  · rintro ⟨hfirst, hrest⟩ mid q k hmid
    cases mid with
    | nil => exact hfirst q k (List.cons_prefix_cons.mp hmid).1.symm
    | cons head mid =>
        obtain ⟨rfl, htail⟩ := List.cons_prefix_cons.mp hmid
        exact hrest mid q k htail

section Decide

variable {deps : ℕ → List ℕ} {logs : ℕ → List LogLine} {mapping : Mapping}

/-- `Mapping` after the first loop over all outputs. -/
def MapsAll (deps : ℕ → List ℕ) (logs : ℕ → List LogLine) (mapping : Mapping) : Prop :=
  ∀ q k : ℕ, mapping (q, k) = if IsLocalPid q ∧ .broadcast k ∈ logs q then
    some (collected (q :: deps q) (linesBefore k (logs q))) else none

/-- The check of one line. -/
theorem checkLines_deliver (hmapping : MapsAll deps logs mapping)
    (hdeps : ∀ p, IsLocalPid p → ∀ q ∈ deps p, IsLocalPid q) (hlogs : LocalLogs logs)
    {pre : List LogLine} {q k : ℕ} (hline : (LogLine.deliver q k).IsU32)
    (hnext : k = deliverLines q pre + 1) (lines : List (List Char)) :
    checkLines mapping ((LogLine.deliver q k).text :: lines) (deliveredAfter pre) = .ok true ↔
      ComesInOrder deps logs pre q k ∧
      checkLines mapping lines (deliveredAfter (pre ++ [.deliver q k])) = .ok true := by
  rw [checkLines, head?_deliver, if_pos rfl, splitDelivery_text hline.1 hline.2]
  simp only [Bind.bind, Except.bind, pyInt_decimal, hmapping q k]
  by_cases hfound : IsLocalPid q ∧ .broadcast k ∈ logs q
  · obtain ⟨hq, hk⟩ := hfound
    have hlisted : ∀ x ∈ q :: deps q, IsLocalPid x := by
      intro x hx
      rcases List.mem_cons.mp hx with rfl | hx
      · exact hq
      · exact hdeps q hq x hx
    -- The numbers collected of an origin are those up to its last one, without a gap.
    have hbefore : Consecutive (linesBefore k (logs q)) :=
      (hlogs.consecutive q hq).mono (linesBefore_isPrefixOf k _)
    obtain ⟨done, hdone, hiff⟩ := checkDid_collected pre (q :: deps q) hlisted
      (collected (q :: deps q) (linesBefore k (logs q))) fun a ha => by
        obtain ⟨x, hx, n, -, rfl⟩ := mem_collected.mp ha
        exact ⟨x, hx, n, rfl⟩
    have hone : ¬ ((k : ℤ) - deliverLines q pre ≠ 1) := by
      rw [hnext]
      push_cast
      simp
    have hcollected : done = true ↔
        ∀ x ∈ q :: deps q, deliverLines x (linesBefore k (logs q)) ≤ deliverLines x pre := by
      rw [hiff, ← collected_le_iff hbefore]
      constructor
      · intro hall x hx n hn
        exact hall x n (mem_collected.mpr ⟨x, hx, n, hn, rfl⟩)
      · intro hall x n hn
        obtain ⟨y, hy, m, hm, heq⟩ := mem_collected.mp hn
        obtain ⟨hxy, hnm⟩ := Prod.mk.inj heq
        obtain rfl : x = y := Int.ofNat.inj hxy
        obtain rfl : n = m := Int.ofNat.inj hnm
        exact hall x hy n hm
    rw [if_pos ⟨hq, hk⟩]
    simp only [orRaise, hdone, pyGet_deliveredAfter hq, if_neg hone, pySet_deliveredAfter hq hnext]
    unfold ComesInOrder
    rw [← hcollected]
    cases checkLines mapping lines (deliveredAfter (pre ++ [.deliver q k])) with
    | error exception => simp
    | ok rest => simp [hq, hk]
  -- Without an entry in the mapping `did` is `None`, and the loop over it raises.
  · rw [if_neg hfound]
    simp only [orRaise]
    constructor
    · intro h
      cases h
    · rintro ⟨⟨hq, hk, -⟩, -⟩
      exact absurd ⟨hq, hk⟩ hfound

theorem checkLines_iff (hmapping : MapsAll deps logs mapping)
    (hdeps : ∀ p, IsLocalPid p → ∀ q ∈ deps p, IsLocalPid q) (hlogs : LocalLogs logs)
    (rest pre : List LogLine) (hrest : ∀ line ∈ rest, line.IsU32)
    (hconsecutive : Consecutive (pre ++ rest)) :
    checkLines mapping (rest.map LogLine.text) (deliveredAfter pre) = .ok true ↔
      ∀ mid q k, mid ++ [.deliver q k] <+: rest → ComesInOrder deps logs (pre ++ mid) q k := by
  induction rest generalizing pre with
  | nil =>
      refine iff_of_true rfl fun mid q k hmid => ?_
      exact absurd (List.prefix_nil.mp hmid) (by simp)
  | cons line rest ih =>
      rw [forall_prefix_cons]
      have hsplit : pre ++ line :: rest = (pre ++ [line]) ++ rest := by simp
      rw [hsplit] at hconsecutive
      have hline : line.IsU32 := hrest line List.mem_cons_self
      have hnext : NextNumber pre line := hconsecutive pre line (List.prefix_append ..)
      have ih := ih (pre ++ [line]) (fun l hl => hrest l (List.mem_cons_of_mem _ hl)) hconsecutive
      simp only [List.append_assoc, List.singleton_append] at ih
      rw [← ih, List.append_nil, List.map_cons]
      cases line with
      | broadcast i =>
          have hsame : deliveredAfter (pre ++ [.broadcast i]) = deliveredAfter pre := by
            simp [deliveredAfter]
          rw [checkLines, head?_broadcast, if_neg (by decide), hsame]
          exact ⟨fun h => ⟨fun q k hline => (by cases hline), h⟩, fun h => h.2⟩
      | deliver q k =>
          rw [checkLines_deliver hmapping hdeps hlogs hline hnext]
          constructor
          · rintro ⟨hfirst, hlater⟩
            refine ⟨fun r n hline => ?_, hlater⟩
            cases hline
            exact hfirst
          · rintro ⟨hfirst, hlater⟩
            exact ⟨hfirst q k rfl, hlater⟩

theorem checkFiles_iff (pids : List ℕ) (hpids : ∀ p ∈ pids, IsLocalPid p) :
    checkFiles mapping (pids.map (outFile logs)) = .ok true ↔
      ∀ p ∈ pids, checkLines mapping ((logs p).map LogLine.text) [0, 0, 0, 0, 0] = .ok true := by
  induction pids with
  | nil => simp [checkFiles]
  | cons p pids ih =>
      rw [List.forall_mem_cons, ← ih fun q hq => hpids q (List.mem_cons_of_mem _ hq),
        List.map_cons, checkFiles, outFile]
      simp only [processOf_logFilenameText (hpids p List.mem_cons_self), pyLines_outputText,
        Bind.bind, Except.bind]
      cases checkLines mapping ((logs p).map LogLine.text) [0, 0, 0, 0, 0] with
      | error exception => simp
      | ok passed =>
          cases checkFiles mapping (pids.map (outFile logs)) with
          | error exception => simp
          | ok rest => simp

/-- `testlocal.py` prints `True` exactly when every process delivers in order. -/
theorem testlocal_decides (layout : Layout) (trailing : Trailing) (hfive : layout.hosts.length = 5)
    (hlogs : LocalLogs logs) {pids : List ℕ} (hpids : pids.Perm [1, 2, 3, 4, 5]) :
    testlocal (layout.text trailing) (pids.map (outFile logs)) = .ok true ↔
      ∀ p, IsLocalPid p → DeliversInOrder layout.deps logs (logs p) := by
  have hmem : ∀ p, p ∈ pids ↔ IsLocalPid p := by
    intro p
    rw [hpids.mem_iff]
    simp only [List.mem_cons, List.not_mem_nil, or_false, IsLocalPid]
    omega
  have hdeps : ∀ p, IsLocalPid p → ∀ q ∈ layout.deps p, IsLocalPid q := by
    intro p hp q hq
    unfold Layout.deps at hq
    rw [List.getD_eq_getElem?_getD] at hq
    cases hlist : layout.dependencies[p - 1]? with
    | none => simp [hlist] at hq
    | some list =>
        rw [hlist] at hq
        have hrange := layout.mem_range list (List.mem_of_getElem? hlist) q hq
        rw [hfive] at hrange
        exact hrange
  obtain ⟨depend, hdepend, hdepends⟩ := dependOf_layout layout trailing hfive
  obtain ⟨mapping, hmapping, hmaps⟩ :=
    mapFiles_logs hdepends hlogs pids (fun p hp => (hmem p).mp hp) fun _ => none
  -- Each output was read once, in some order; its entries of the mapping are its own.
  have hall : MapsAll layout.deps logs mapping := by
    intro q k
    by_cases hk : .broadcast k ∈ logs q
    · by_cases hq : IsLocalPid q
      · rw [if_pos ⟨hq, hk⟩]
        exact hmaps.found q ((hmem q).mpr hq) k hk
      · rw [if_neg fun h => hq h.1]
        refine hmaps.others _ fun p hp heq => hq ?_
        rw [show q = p from Int.ofNat.inj heq]
        exact (hmem p).mp hp
    · rw [if_neg fun h => hk h.2]
      exact hmaps.missing q k hk
  unfold testlocal
  simp only [hdepend, hmapping, Bind.bind, Except.bind]
  rw [checkFiles_iff pids fun p hp => (hmem p).mp hp]
  have hchecked : ∀ p, IsLocalPid p →
      (checkLines mapping ((logs p).map LogLine.text) [0, 0, 0, 0, 0] = .ok true ↔
        DeliversInOrder layout.deps logs (logs p)) := by
    intro p hp
    exact checkLines_iff hall hdeps hlogs (logs p) [] (hlogs.isU32 p hp) (hlogs.consecutive p hp)
  constructor
  · intro h p hp
    exact (hchecked p hp).mp (h p ((hmem p).mpr hp))
  · intro h p hp
    exact (hchecked p ((hmem p).mp hp)).mpr (h p ((hmem p).mp hp))

end Decide

end CausalBroadcast
