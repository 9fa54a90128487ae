import NextBuild.BranchOrder
import NextBuild.Strategy.Candidates

/-!
# The default strategy

Builds the newest commits of all branches that the specs match.  A request for one definite branch
is resolved by trying, one after the other, the references that the name may mean.
-/

namespace NextBuild

/-- The default strategy. -/
structure DefaultStrategy where
  specs : List BranchSpec
  /-- The remotes whose branches a plain name may mean. -/
  remotes : List String

namespace DefaultStrategy

/-- The strategy for branch specs and names of remotes; blank names are left out. -/
def ofTexts (branches remotes : List String) : Except Failure DefaultStrategy := do
  let remotes := (remotes.map Text.trim).filter (!·.isEmpty)
  if remotes.any (Text.hasChar '/') then throw (.invalidConfig .remoteWithSlash)
  return ⟨← BranchSpec.ofTexts branches, remotes⟩

/-- The name stands for more than one branch. -/
def isPattern (name : String) : Bool :=
  Text.hasChar '*' name || Text.startsWith ":" name

/-- The one definite branch that is asked for, or else is configured. -/
def singleTarget? (s : DefaultStrategy) (req : Request) : Option String :=
  let raw := match req.target with
    | some t => some t
    | none => match s.specs with
      | [only] => some only.name
      | _ => none
  (raw.map fun t => Text.trim (Text.expand req.env (Text.trim t))).filter
    fun name => !name.isEmpty && !isPattern name

/-- A reference to try for a target, and the name under which its commit is built. -/
structure Lead where
  reference : String
  label : String
deriving DecidableEq, Repr

/-- What a name with a `/` may mean in one remote. -/
def qualifiedLeads (name remote : String) : List Lead :=
  if Text.startsWith (remote ++ "/") name then [⟨"refs/remotes/" ++ name, name⟩]
  else match Text.afterLead? ("remotes/" ++ remote ++ "/") name with
    | some rest => [⟨"refs/" ++ name, remote ++ "/" ++ rest⟩]
    | none => match Text.afterLead? "refs/heads/" name with
      | some rest => [⟨"refs/remotes/" ++ remote ++ "/" ++ rest, remote ++ "/" ++ rest⟩]
      | none => [⟨name, name⟩, ⟨"refs/remotes/" ++ remote ++ "/" ++ name, remote ++ "/" ++ name⟩]

/-- Leads without those to a reference that came before. -/
def distinctLeads (leads : List Lead) : List Lead :=
  (leads.foldl (fun seen l => if seen.any (·.reference == l.reference) then seen else l :: seen)
    []).reverse

/-- The references that a name may mean, in the order in which they are tried. -/
def leads (s : DefaultStrategy) (name : String) : List Lead :=
  if name = "FETCH_HEAD" then [⟨name, name⟩]
  else
    let specific :=
      if Text.hasChar '/' name then s.remotes.flatMap (qualifiedLeads name)
      else ⟨"refs/tags/" ++ name, "refs/tags/" ++ name⟩
        :: s.remotes.map fun r => ⟨"refs/remotes/" ++ r ++ "/" ++ name, r ++ "/" ++ name⟩
    distinctLeads (specific ++ [⟨name, name⟩])

/-- The question for a reference. -/
def Lead.query (l : Lead) : Inquiry (Option CommitId) :=
  if l.reference = "FETCH_HEAD" then .queryIfExists .fetchHead
  else .queryIfExists (.resolve l.reference)

/-- The commits of the leads that exist, as labelled revisions. -/
def resolveLeads : List Lead → Inquiry (List Revision)
  | [] => return []
  | l :: ls => do
    let found ← l.query
    let rest ← resolveLeads ls
    return match found with
      | some c => .labelled c l.label :: rest
      | none => rest

/-- The revision of one definite branch: the first of its leads that exists. -/
def selectSingle (s : DefaultStrategy) (req : Request) (ledger : Ledger) (name : String) :
    Inquiry (List Revision) := do
  if !req.poll && CommitId.looksLikeAbbreviation name then
    match ← .queryIfExists (.resolve name) with
    | some c => return [.labelled c detached]
    | none => pure ()
  match (← resolveLeads (s.leads name)).head? with
  | none => return []
  | some r => return if req.poll && ledger.hasBuilt r.commit then [] else [r]

/-- The branches of a revision that the specs match, without pointers to default branches if there
is more than one. -/
def eligible (specs : List BranchSpec) (env : Text.Environment) (r : Revision) :
    Except Failure Revision := do
  let r ← r.filterNames fun b => BranchSpec.anyMatch specs env b.name
  return if 1 < r.branches.length then r.filter (!·.isHeadPointer) else r

/-- The newest commits of the branches that the specs match. -/
def selectMatching (req : Request) (ledger : Ledger) (specs : List BranchSpec) :
    Inquiry (List Revision) := do
  let listed ← listedRevisions
  let matched ← Inquiry.ofExcept (listed.mapM (eligible specs req.env))
  let newest ← tips (matched.filter (·.hasBranches))
  match dropBuilt ledger newest with
  | ([], again) =>
    if req.poll then return []
    match again with
    | none => return []
    | some r => match r.sortBranches specs req.env with
      | (none, r) => return [r]
      | (some f, _) => .fail f
  | (fresh, _) => sortOldestFirst fresh

/-- The revisions to build. -/
def select (s : DefaultStrategy) (req : Request) (ledger : Ledger) : Inquiry (List Revision) := do
  match s.singleTarget? req with
  | some name => s.selectSingle req ledger name
  | none => match req.target.map Text.trim |>.filter (!·.isEmpty) with
    | some spec => selectMatching req ledger [← Inquiry.ofExcept (BranchSpec.ofText spec)]
    | none => selectMatching req ledger s.specs

end DefaultStrategy

end NextBuild
