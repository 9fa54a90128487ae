import NextBuild.Proofs.Ledger
import NextBuild.Proofs.Selection.Offers

/-!
# The loop of polls and builds drains

A job polls and builds one of the revisions that are found, as long as there is one, while its graph
stays as it is.  A build takes over what the ledger kept for its names, and by that it may make the
ledger forget other builds; so the tips that were never built may grow in number.  What is never
forgotten is a build of the loop itself: the builds under one of its names are of the same commit,
because each listed name belongs to one commit.  So no commit is built twice, and the loop comes to
an end after at most one build for each listed commit.
-/

namespace NextBuild

/-- The builds of a loop that starts with a ledger, in their order.  Each one is of a revision that
the poll before it has found, with any number and any outcome. -/
inductive PollLoop (poll : Ledger → Except Failure (List Revision)) (ledger : Ledger) :
    List Build → Prop
  | start : PollLoop poll ledger []
  | build {done : List Build} {rs : List Revision} {r : Revision} (number : UInt64)
      (result : BuildResult) : PollLoop poll ledger done →
      poll (ledger.recordAll done) = .ok rs → r ∈ rs →
      PollLoop poll ledger (done ++ [⟨r, none, number, result⟩])

/-- The loop drains within a number of steps, whatever it builds of what is found. -/
structure Drains (poll : Ledger → Except Failure (List Revision)) (ledger : Ledger)
    (bound : Nat) : Prop where
  /-- No commit is recorded twice. -/
  distinct : ∀ done, PollLoop poll ledger done → (done.map (·.revision.commit)).Nodup
  /-- There are no more steps than the bound. -/
  length_le : ∀ done, PollLoop poll ledger done → done.length ≤ bound
  /-- What was recorded and what is still found are together no more than the bound, so a poll finds
  nothing after that many steps. -/
  within : ∀ done rs, PollLoop poll ledger done → poll (ledger.recordAll done) = .ok rs →
    done.length + rs.length ≤ bound
  /-- If no poll fails, every loop goes on to a poll that finds nothing. -/
  ends : (∀ done, PollLoop poll ledger done → ∃ rs, poll (ledger.recordAll done) = .ok rs) →
    ∀ done, PollLoop poll ledger done →
      ∃ more, PollLoop poll ledger (done ++ more) ∧
        poll (ledger.recordAll (done ++ more)) = .ok []

variable {poll : Ledger → Except Failure (List Revision)} {ledger : Ledger}
  {own : CommitId → String → Prop} {cs : List CommitId} {done : List Build} {bound : Nat}

/-- A greater bound is a bound. -/
theorem Drains.mono (h : Drains poll ledger bound) {bound' : Nat} (hle : bound ≤ bound') :
    Drains poll ledger bound' where
  distinct := h.distinct
  length_le done hdone := Nat.le_trans (h.length_le done hdone) hle
  within done rs hdone hrs := Nat.le_trans (h.within done rs hdone hrs) hle
  ends := h.ends

/-- A loop that cannot take more steps than the bound comes to an end unless a poll fails. -/
theorem exists_end_of_length_le (hlength : ∀ done, PollLoop poll ledger done → done.length ≤ bound)
    (hok : ∀ done, PollLoop poll ledger done → ∃ rs, poll (ledger.recordAll done) = .ok rs)
    (h : PollLoop poll ledger done) :
    ∃ more, PollLoop poll ledger (done ++ more) ∧
      poll (ledger.recordAll (done ++ more)) = .ok [] := by
  -- The induction is on the number of steps that are left.
  induction hleft : bound - done.length generalizing done with
  | zero =>
    obtain ⟨rs, hrs⟩ := hok done h
    cases rs with
    | nil => exact ⟨[], by simpa using h, by simpa using hrs⟩
    | cons r rs =>
      have hnext := hlength _ (h.build 0 .success hrs List.mem_cons_self)
      simp only [List.length_append, List.length_singleton] at hnext
      omega
  | succ left ih =>
    obtain ⟨rs, hrs⟩ := hok done h
    cases rs with
    | nil => exact ⟨[], by simpa using h, by simpa using hrs⟩
    | cons r rs =>
      have hnext := h.build 0 .success hrs List.mem_cons_self
      obtain ⟨more, hmore, hend⟩ := ih hnext (by
        simp only [List.length_append, List.length_singleton]
        omega)
      exact ⟨⟨r, none, 0, .success⟩ :: more, by simpa using hmore, by simpa using hend⟩

/-- The build is of a commit of the list, without a merge, and under names that belong to it. -/
structure Offered (own : CommitId → String → Prop) (cs : List CommitId) (b : Build) : Prop where
  marked : b.marked = b.revision
  mem : b.revision.commit ∈ cs
  named : b.revision.names ≠ []
  owned : ∀ name ∈ b.revision.names, own b.revision.commit name

namespace PollLoop

/-- Every build of the loop was offered by a poll. -/
theorem offered (h : PollLoop poll ledger done)
    (hoffers : ∀ l rs, poll l = .ok rs → Offers own cs l rs) : ∀ b ∈ done, Offered own cs b := by
  induction h with
  | start => simp
  | build number result _ hrs hr ih =>
    intro b hb
    have hoffer := hoffers _ _ hrs
    rcases List.mem_append.1 hb with hb | hb
    · exact ih b hb
    · rw [List.mem_singleton.1 hb]
      exact ⟨rfl, hoffer.mem _ hr, hoffer.named _ hr, hoffer.owned _ hr⟩

/-- The ledger never forgets a build of the loop. -/
theorem hasBuilt_of_mem (h : PollLoop poll ledger done)
    (hoffers : ∀ l rs, poll l = .ok rs → Offers own cs l rs)
    (hown : ∀ c d name, own c name → own d name → c = d) {b : Build} (hb : b ∈ done) :
    (ledger.recordAll done).hasBuilt b.revision.commit = true := by
  have hoffered := h.offered hoffers
  obtain ⟨name, hname⟩ := List.exists_mem_of_ne_nil _ (hoffered b hb).named
  obtain ⟨d, hd, hdname, hkept⟩ :=
    ledger.exists_buildOfBranch?_recordAll hb ((hoffered b hb).marked ▸ hname)
  -- The last build under a name of `b` need not be `b` itself, but it is of the same commit.
  have hsame : d.revision.commit = b.revision.commit := by
    refine hown _ _ name ((hoffered d hd).owned name ?_) ((hoffered b hb).owned name hname)
    rwa [(hoffered d hd).marked] at hdname
  exact Ledger.hasBuilt_iff_buildOfBranch?.2 (.inr ⟨name, d, hkept, hsame ▸ d.covers_revision⟩)

/-- What a poll finds was not built by the loop. -/
theorem nodup_append (h : PollLoop poll ledger done)
    (hoffers : ∀ l rs, poll l = .ok rs → Offers own cs l rs)
    (hown : ∀ c d name, own c name → own d name → c = d)
    (hdistinct : (done.map (·.revision.commit)).Nodup) {rs : List Revision}
    (hrs : poll (ledger.recordAll done) = .ok rs) :
    (done.map (·.revision.commit) ++ rs.map (·.commit)).Nodup := by
  have hoffer := hoffers _ _ hrs
  refine List.nodup_append.2 ⟨hdistinct, hoffer.nodup, fun c hc d hd hcd => ?_⟩
  obtain ⟨b, hb, rfl⟩ := List.mem_map.1 hc
  obtain ⟨r, hr, rfl⟩ := List.mem_map.1 hd
  have hbuilt := h.hasBuilt_of_mem hoffers hown hb
  rw [hcd, hoffer.fresh r hr] at hbuilt
  cases hbuilt

/-- The loop builds distinct commits. -/
theorem nodup (h : PollLoop poll ledger done)
    (hoffers : ∀ l rs, poll l = .ok rs → Offers own cs l rs)
    (hown : ∀ c d name, own c name → own d name → c = d) :
    (done.map (·.revision.commit)).Nodup := by
  induction h with
  | start => simp
  | @build done rs r number result hdone hrs hr ih =>
    have hone : [r.commit].Sublist (rs.map (·.commit)) :=
      List.singleton_sublist.2 (List.mem_map_of_mem hr)
    rw [List.map_append]
    exact (hone.append_left _).nodup (hdone.nodup_append hoffers hown ih hrs)

/-- What was built and what is still found are distinct commits of the list. -/
theorem length_add_length_le (h : PollLoop poll ledger done)
    (hoffers : ∀ l rs, poll l = .ok rs → Offers own cs l rs)
    (hown : ∀ c d name, own c name → own d name → c = d) {rs : List Revision}
    (hrs : poll (ledger.recordAll done) = .ok rs) : done.length + rs.length ≤ cs.length := by
  have hnodup := h.nodup_append hoffers hown (h.nodup hoffers hown) hrs
  have hsubset : done.map (·.revision.commit) ++ rs.map (·.commit) ⊆ cs := by
    intro c hc
    rcases List.mem_append.1 hc with hc | hc
    · obtain ⟨b, hb, rfl⟩ := List.mem_map.1 hc
      exact (h.offered hoffers b hb).mem
    · obtain ⟨r, hr, rfl⟩ := List.mem_map.1 hc
      exact (hoffers _ _ hrs).mem r hr
  simpa using (List.subperm_of_subset hnodup hsubset).length_le

end PollLoop

/-- A poll that offers commits of one list, under names that belong to one commit each, drains. -/
theorem drains_of_offers (ledger : Ledger) (hoffers : ∀ l rs, poll l = .ok rs → Offers own cs l rs)
    (hown : ∀ c d name, own c name → own d name → c = d) : Drains poll ledger cs.length := by
  have hlength : ∀ done, PollLoop poll ledger done → done.length ≤ cs.length := by
    intro done hdone
    cases hdone with
    | start => exact Nat.zero_le _
    | build number result hbefore hrs hr =>
      have hle := hbefore.length_add_length_le hoffers hown hrs
      have hpos := List.length_pos_of_mem hr
      simp only [List.length_append, List.length_singleton]
      omega
  exact {
    distinct := fun done hdone => hdone.nodup hoffers hown
    length_le := hlength
    within := fun done rs hdone hrs => hdone.length_add_length_le hoffers hown hrs
    ends := fun hok done hdone => exists_end_of_length_le hlength hok hdone }

/-- On a graph that lists each name once, the polls of any strategy but the queue drain, whatever
the ledger was at the start: within one step if they are for one definite branch, and else within a
step for each listed commit. -/
theorem Strategy.pollLoop_drains {g : MemoryGraph} {req : Request} {s : Strategy} {inner : BaseStrategy}
    (ledger : Ledger) (hinner : s.inner? = some inner) (hpoll : req.poll = true)
    (hnames : (g.branches.map (·.name)).Nodup) :
    Drains (fun l => (s.select req l).run g.answers) ledger (inner.offerBound req g.branches) := by
  obtain ⟨own, cs, hown, hlength, hoffers⟩ :=
    inner.exists_offers (g := g.answers) hpoll rfl hnames
  refine (drains_of_offers ledger (fun l rs h => ?_) hown).mono hlength
  obtain ⟨candidates, hcandidates, hpart⟩ := exists_subperm_of_select hinner h
  exact (hoffers l candidates hcandidates).of_subperm hpart

open MemoryGraph in
/-- Two branches, of which the ledger knows the name of one, for a commit that the name has left. -/
theorem Strategy.pollLoop_drains_twoBranches :
    let strategy : Strategy := .prioritized (.inverse ⟨[]⟩) ⟨none, some olderCommit⟩ ["side"]
    let request : Request := ⟨true, none, [], ⟨2024, 1, 31⟩, 0⟩
    let ledger := Ledger.empty.record ⟨.labelled newerCommit "origin/master", none, 7, .failure⟩
    strategy.inner? = some (.inverse ⟨[]⟩) ∧ request.poll = true ∧
      (twoBranches.branches.map (·.name)).Nodup ∧
      Drains (fun l => (strategy.select request l).run twoBranches.answers) ledger
        (BaseStrategy.offerBound request twoBranches.branches (.inverse ⟨[]⟩)) := by
  intro strategy request ledger
  have hinner : strategy.inner? = some (.inverse ⟨[]⟩) := rfl
  have hpoll : request.poll = true := rfl
  have hnames : (twoBranches.branches.map (·.name)).Nodup :=
    ((List.mergeSort_perm _ _).map Branch.name).nodup_iff.2 (by decide)
  exact ⟨hinner, hpoll, hnames, Strategy.pollLoop_drains ledger hinner hpoll hnames⟩

end NextBuild
