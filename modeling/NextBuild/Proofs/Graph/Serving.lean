import NextBuild.Graph.Walk
import NextBuild.Proofs.Graph.Loopback
import NextBuild.Proofs.Json.RoundTrip

/-!
# Every line is answered from the graph alone

What a walk keeps are ancestors as the graph gives them, so an answer from the walk is the answer of
the graph, whatever was asked before.  Each response is one line of printable characters, and it is
followed by a line feed.  So the lines that are written are the responses, and each of them depends on
its own question only.
-/

namespace NextBuild

/-! ## Lines that are written -/

namespace Text

/-- A line without carriage returns is left as it is. -/
theorem dropReturn_eq_self {cs : List Char} (h : '\r' ∉ cs) : dropReturn cs = cs := by
  unfold dropReturn
  split
  · next r hr =>
    apply absurd _ h
    rw [← List.mem_reverse, hr]
    exact List.mem_cons_self
  · rfl

/-- Characters up to a line feed are read as one line, in front of the lines that follow. -/
theorem linesFrom_append {cs : List Char} (h : '\n' ∉ cs) (line rest : List Char) :
    linesFrom line (cs ++ '\n' :: rest) = dropReturn (line.reverse ++ cs) :: linesFrom [] rest := by
  induction cs generalizing line with
  | nil => rw [List.nil_append, linesFrom, List.append_nil]
  | cons c cs ih =>
    rw [List.mem_cons, not_or] at h
    rw [List.cons_append, linesFrom]
    · rw [ih h.2, List.reverse_cons, List.append_assoc, List.singleton_append]
    · exact fun hc => h.1 hc.symm

/-- Texts without line ends, each written on a line, are read as they were. -/
theorem lines_join {ts : List String} (h : ∀ t ∈ ts, '\n' ∉ t.toList ∧ '\r' ∉ t.toList) :
    lines (String.join (ts.map (· ++ "\n"))) = ts := by
  induction ts with
  | nil => rfl
  | cons t ts ih =>
    obtain ⟨ht, hts⟩ := List.forall_mem_cons.1 h
    have hrest := ih hts
    unfold lines at hrest ⊢
    rw [List.map_cons, String.join_cons, String.toList_append, String.toList_append,
      List.append_assoc]
    show (linesFrom [] (t.toList ++ '\n' :: (String.join (ts.map (· ++ "\n"))).toList)).map
      String.ofList = _
    rw [linesFrom_append ht.1, List.map_cons, hrest, List.reverse_nil, List.nil_append,
      dropReturn_eq_self ht.2, String.ofList_toList]

end Text

/-- A response is written on one line. -/
theorem Response.notMem_text (r : Response) : '\n' ∉ r.text.toList ∧ '\r' ∉ r.text.toList := by
  have hprintable : Json.Printable r.text.toList := by
    rw [text, Json.compact, String.toList_ofList]
    exact r.composed_json.printable
  exact ⟨fun h => absurd (hprintable _ h) (by decide), fun h => absurd (hprintable _ h) (by decide)⟩

/-! ## One question -/

namespace Walk

variable {g : Dag} {w : Walk}

/-- What the walk keeps for a commit are its ancestors. -/
def Faithful (w : Walk) (g : Dag) : Prop :=
  ∀ c closure, w.closures.lookup c = some closure → g.ancestors c = .ok closure

/-- A walk that has not begun remembers nothing wrong. -/
theorem faithful_start (g : Dag) : Faithful {} g := fun _ _ h => by cases h

/-- A walk answers as the graph does. -/
theorem Faithful.fst_isMergedInto (hw : w.Faithful g) (a c : CommitId) :
    (w.isMergedInto g a c).1 = g.isMergedInto a c := by
  unfold isMergedInto Dag.isMergedInto
  cases hnode : g.node a with
  | error f => rfl
  | ok n =>
    cases hkept : w.closures.lookup c with
    | some closure => rw [hw c closure hkept, ok_bind, ok_bind]; rfl
    | none => cases hgathered : g.ancestors c <;> rfl

/-- A walk only keeps ancestors that it has gathered. -/
theorem Faithful.snd_isMergedInto (hw : w.Faithful g) (a c : CommitId) :
    (w.isMergedInto g a c).2.Faithful g := by
  unfold isMergedInto
  split
  · exact hw
  · split
    · exact hw
    · split
      · exact hw
      · next closure hgathered =>
        intro d ds hd
        rw [List.lookup_cons] at hd
        by_cases hdc : d = c
        · subst hdc
          rw [beq_self_eq_true] at hd
          cases hd
          exact hgathered
        · rw [beq_false_of_ne hdc] at hd
          exact hw d ds hd

end Walk

namespace MemoryGraph

variable {g : MemoryGraph} {walk : Option Walk}

/-- What an open walk keeps are ancestors in the graph. -/
def IsFaithful (g : MemoryGraph) (walk : Option Walk) : Prop := ∀ w ∈ walk, w.Faithful g.dag

/-- Without a walk there is nothing to remember. -/
theorem isFaithful_none : g.IsFaithful none := fun _ h => by cases h

/-- What is remembered by an open walk is what the graph tells. -/
theorem isFaithful_some {w : Walk} : g.IsFaithful (some w) ↔ w.Faithful g.dag := by
  simp [IsFaithful]

/-- The walk that a question belongs to, a new one if none is open. -/
theorem IsFaithful.getD (h : g.IsFaithful walk) : (walk.getD {}).Faithful g.dag := by
  cases walk with
  | none => exact Walk.faithful_start g.dag
  | some w => exact h w rfl

/-- A question is answered as the graph answers it, and what is kept stays faithful. -/
theorem IsFaithful.respond (h : g.IsFaithful walk) (q : Query) :
    (g.respond q walk).1 = .ofResult q (g.answers q) ∧ g.IsFaithful (g.respond q walk).2 := by
  cases q with
  | openWalk => exact ⟨rfl, isFaithful_some.2 (Walk.faithful_start g.dag)⟩
  | isMergedInto a c =>
    refine ⟨?_, isFaithful_some.2 (h.getD.snd_isMergedInto a c)⟩
    exact congrArg (Response.ofResult (.isMergedInto a c)) (h.getD.fst_isMergedInto a c)
  | commitTime c => exact ⟨rfl, isFaithful_some.2 h.getD⟩
  | references => exact ⟨rfl, h⟩
  | resolve name => exact ⟨rfl, h⟩
  | mergeBase a b => exact ⟨rfl, h⟩
  | timestamp c => exact ⟨rfl, h⟩
  | log reference => exact ⟨rfl, h⟩
  | fetchHead => exact ⟨rfl, h⟩

/-! ## Many lines -/

/-- The response to a line, from the graph alone. -/
def reply (g : MemoryGraph) (line : String) : Response :=
  match Query.ofText? line with
  | some q => .ofResult q (g.answers q)
  | none => Session.malformed

/-- The lines of a text that are answered. -/
def asked (input : String) : List String :=
  (Text.lines input).filter fun line => !Text.allBlank line

/-- A line is answered by what it asks alone, and the session stays faithful. -/
theorem IsFaithful.respondToLine (h : g.IsFaithful walk) (line : String) :
    (g.respondToLine line walk).1 = g.reply line ∧
      g.IsFaithful (g.respondToLine line walk).2 := by
  unfold MemoryGraph.respondToLine reply
  cases Query.ofText? line with
  | some q => exact h.respond q
  | none => exact ⟨rfl, h⟩

/-- Lines are answered one by one, behind what was written before. -/
theorem IsFaithful.serveLines (h : g.IsFaithful walk) (lines : List String) (s : Served) :
    g.serveLines lines walk s =
      ⟨s.output ++ String.join ((lines.filter fun line => !Text.allBlank line).map fun line =>
        (g.reply line).text ++ "\n"),
      s.handled + (lines.filter fun line => !Text.allBlank line).length⟩ := by
  induction lines generalizing walk s with
  | nil => simp [MemoryGraph.serveLines]
  | cons line rest ih =>
    rw [MemoryGraph.serveLines]
    by_cases hblank : Text.allBlank line = true
    · simp [hblank, ih h]
    · obtain ⟨hreply, hnext⟩ := h.respondToLine line
      simp [hblank, ih hnext, hreply, String.append_assoc, Nat.add_assoc, Nat.add_comm 1]

/-- The output is the reply to each line that asks something, one after the other, and they are
counted. -/
theorem serve_eq (g : MemoryGraph) (input : String) :
    g.serve input = ⟨String.join (((asked input).map fun line => (g.reply line).text).map (· ++ "\n")),
      (asked input).length⟩ := by
  rw [serve, isFaithful_none.serveLines]
  simp [asked, Function.comp_def]

/-- The lines that are written are the responses to the lines that are asked. -/
theorem lines_serve (g : MemoryGraph) (input : String) :
    Text.lines (g.serve input).output = (asked input).map fun line => (g.reply line).text := by
  rw [serve_eq]
  apply Text.lines_join
  intro t ht
  obtain ⟨line, -, rfl⟩ := List.mem_map.1 ht
  exact (g.reply line).notMem_text

/-- A session that remembers only whether a walk is open gives the same responses. -/
theorem serve_answers_eq (g : MemoryGraph) (input : String) :
    Session.serve g.answers input = (asked input).map g.reply := by
  have hreply (line : String) (s : Session) :
      (Session.respondToLine g.answers line s).1 = g.reply line := by
    unfold Session.respondToLine reply
    cases Query.ofText? line with
    | some q => exact Session.fst_respond rfl q s
    | none => rfl
  have hlines (lines : List String) (s : Session) :
      Session.respondToLines g.answers lines s = lines.map g.reply := by
    induction lines generalizing s with
    | nil => rfl
    | cons line rest ih =>
      simp only [Session.respondToLines, ih, hreply, List.map_cons]
  exact hlines (asked input) {}

/-- Serving answers each line that is not blank on a line of its own, in order, and counts them: a
question with what the graph answers to it, and a line that is no question with a failure, whatever
came before. -/
theorem serve_answers_each_line (g : MemoryGraph) (input : String) :
    (g.serve input).handled = (asked input).length ∧
      (g.serve input).output = String.join ((Text.lines (g.serve input).output).map (· ++ "\n")) ∧
      List.Forall₂
        (fun line written =>
          (∀ q, Query.ofText? line = some q →
            Response.ofText? written = some (.ofResult q (g.answers q))) ∧
          (Query.ofText? line = none →
            ∃ message, Response.ofText? written = some (.failed .repository message)))
        (asked input) (Text.lines (g.serve input).output) := by
  refine ⟨by rw [serve_eq], by rw [lines_serve, serve_eq], ?_⟩
  rw [lines_serve, List.forall₂_map_right_iff, List.forall₂_same]
  intro line _
  rw [Response.ofText?_text]
  constructor
  · intro q hq
    rw [reply, hq]
  · intro hnone
    rw [reply, hnone]
    exact ⟨_, rfl⟩

end MemoryGraph

end NextBuild
