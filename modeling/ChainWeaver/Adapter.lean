import ChainWeaver.Data.Attempt
import ChainWeaver.Data.OrderedDict
import Mathlib.Data.List.Induction

/-!
# Names of remote tools

`MCPToolAdapter` names a remote tool after its server and itself, and `MetadataPolicy`
replaces what it does not like in a name. Neither keeps names apart: the parts of a name do
not show where they meet, and replaced characters look alike (`separate_iff`).
-/

namespace ChainWeaver

-- The metadata policy

inductive OnInvalidName
  | error | sanitize
  deriving DecidableEq

/-- `fullmatch` tells which names the pattern matches from end to end. -/
structure MetadataPolicy where
  namePattern : String := "^[A-Za-z0-9._-]+$"
  fullmatch : String → Bool
  onInvalidName : OnInvalidName := .error

/-- `MCPMetadataError`, by what its text says. -/
inductive MetadataError
  | invalid (name pattern : String)
  | stillInvalid (name sanitised pattern : String)
  deriving DecidableEq

namespace MetadataPolicy

/-- The characters of `[A-Za-z0-9._-]`. -/
def safe (c : Char) : Bool := c.isAlphanum || c = '.' || c = '_' || c = '-'

/-- The policy of the default pattern. -/
def default (onInvalidName : OnInvalidName) : MetadataPolicy :=
  { fullmatch := fun name => !name.toList.isEmpty && name.toList.all safe, onInvalidName }

def sanitised (name : String) : String :=
  let replaced := String.ofList (name.toList.map fun c => if safe c then c else '_')
  if replaced = "" then "mcp_tool" else replaced

def applyName (policy : MetadataPolicy) (name : String) : Except MetadataError String :=
  if policy.fullmatch name then .ok name
  else
    match policy.onInvalidName with
    | .sanitize =>
      if policy.fullmatch (sanitised name) then .ok (sanitised name)
      else .error (.stillInvalid name (sanitised name) policy.namePattern)
    | .error => .error (.invalid name policy.namePattern)

end MetadataPolicy

-- Discovery

/-- A call of `discover_tools`, with the names that the server lists. -/
structure Discovery where
  serverPrefix : String := ""
  prefixSeparator : String := "__"
  catalogue : List String
  wanted : Option (List String) := none
  unwanted : List String := []

/-- A discovered tool: the place of its server, its name there, and its name here. -/
structure RemoteTool where
  server : Nat
  remoteName : String
  name : String
  deriving DecidableEq

namespace Discovery

def kept (discovery : Discovery) : List String :=
  discovery.catalogue.filter fun name =>
    discovery.wanted.all (·.contains name) && !discovery.unwanted.contains name

def rawName (discovery : Discovery) (remoteName : String) : String :=
  if discovery.serverPrefix = "" then remoteName
  else discovery.serverPrefix ++ discovery.prefixSeparator ++ remoteName

/-- `_build_tool`, as far as the name goes. -/
def buildTool (discovery : Discovery) (policy : MetadataPolicy) (server : Nat) (remoteName : String) :
    Except MetadataError RemoteTool := do
  let name ← policy.applyName (discovery.rawName remoteName)
  pure { server, remoteName, name }

def discoverTools (discovery : Discovery) (policy : MetadataPolicy) (server : Nat) :
    Except MetadataError (List RemoteTool) :=
  discovery.kept.mapM (discovery.buildTool policy server)

end Discovery

/-- The tools of all servers. -/
def discoverAll (policy : MetadataPolicy) (servers : List Discovery) : Except MetadataError (List RemoteTool) := do
  let tools ← servers.zipIdx.mapM fun entry => entry.1.discoverTools policy entry.2
  pure tools.flatten

namespace RemoteTool

/-- `register_tool`, as far as the table of tools goes. -/
def register (table : OrderedDict RemoteTool) (tool : RemoteTool) : OrderedDict RemoteTool :=
  table.insert tool.name tool

def registerAll (tools : List RemoteTool) : OrderedDict RemoteTool := tools.foldl register .empty

/-- Different remote tools have different names, and each is registered under its own. -/
structure Separate (tools : List RemoteTool) : Prop where
  names : ∀ tool ∈ tools, ∀ other ∈ tools,
    (tool.server, tool.remoteName) ≠ (other.server, other.remoteName) → tool.name ≠ other.name
  registered : ∀ tool ∈ tools, (registerAll tools).get? tool.name = some tool

end RemoteTool

-- Names that cannot be told apart

/-- The rest of the longer prefix, with the separator and the name after it, is spelled as
the separator and the name after the shorter prefix. -/
def RunsTogether (short long : Discovery) (name name' : String) : Prop :=
  ∃ rest, long.serverPrefix.toList = short.serverPrefix.toList ++ rest ∧
    short.prefixSeparator.toList ++ name.toList = rest ++ (long.prefixSeparator.toList ++ name'.toList)

namespace MetadataPolicy

/-- The policy puts `_` in the place of the character in this name. -/
def Masks (policy : MetadataPolicy) (name : String) (c : Char) : Prop :=
  policy.fullmatch name = false ∧ safe c = false

/-- Both show as `_`, or both as the same character. -/
def LooksAlike (policy : MetadataPolicy) (name name' : String) (c c' : Char) : Prop :=
  (policy.Masks name c ∨ c = '_') ∧ (policy.Masks name' c' ∨ c' = '_') ∨
    c = c' ∧ ¬policy.Masks name c ∧ ¬policy.Masks name' c'

/-- The characters that stand for the name; the empty name, if it has to be replaced, has
a name of its own. -/
def spelling (policy : MetadataPolicy) (name : String) : List Char :=
  if name = "" && !policy.fullmatch name then "mcp_tool".toList else name.toList

/-- The remote tools `name` of the one server and `name'` of the other cannot be told
apart: their names run together, or look alike once characters are replaced. -/
inductive Confuses (policy : MetadataPolicy) (server server' : Discovery) (name name' : String) : Prop
  | together : RunsTogether server server' name name' → Confuses policy server server' name name'
  | together' : RunsTogether server' server name' name → Confuses policy server server' name name'
  | masked : policy.fullmatch (server.rawName name) = false ∨ policy.fullmatch (server'.rawName name') = false →
      List.Forall₂ (policy.LooksAlike (server.rawName name) (server'.rawName name'))
        (policy.spelling (server.rawName name)) (policy.spelling (server'.rawName name')) →
      Confuses policy server server' name name'

end MetadataPolicy

-- Names

section

variable {policy : MetadataPolicy} {server server' : Discovery} {name name' raw raw' : String}

theorem rawName_toList (h : server.serverPrefix ≠ "") (name : String) :
    (server.rawName name).toList =
      server.serverPrefix.toList ++ (server.prefixSeparator.toList ++ name.toList) := by
  rw [Discovery.rawName, if_neg h]
  simp

/-- Names with prefixes are the same if they run together. -/
theorem rawName_eq_iff (h : server.serverPrefix ≠ "") (h' : server'.serverPrefix ≠ "") :
    server.rawName name = server'.rawName name' ↔
      RunsTogether server server' name name' ∨ RunsTogether server' server name' name := by
  rw [← String.toList_inj, rawName_toList h, rawName_toList h', List.append_eq_append_iff]
  rfl

/-- One server keeps its own names apart. -/
theorem rawName_inj : server.rawName name = server.rawName name' ↔ name = name' := by
  by_cases h : server.serverPrefix = ""
  · simp [Discovery.rawName, h]
  · rw [← String.toList_inj, rawName_toList h, rawName_toList h, List.append_cancel_left_eq,
      List.append_cancel_left_eq, String.toList_inj]

theorem runsTogether_self : RunsTogether server server name name' ↔ name = name' := by
  constructor
  · rintro ⟨rest, hrest, hname⟩
    obtain rfl : rest = [] := by simpa using hrest
    exact String.toList_inj.1 (by simpa using hname)
  · rintro rfl
    exact ⟨[], by simp, by simp⟩

/-- What the policy shows for a character of the name. -/
def MetadataPolicy.shown (policy : MetadataPolicy) (name : String) (c : Char) : Char :=
  if policy.fullmatch name then c else if MetadataPolicy.safe c then c else '_'

theorem looksAlike_iff {c c' : Char} :
    policy.LooksAlike raw raw' c c' ↔ policy.shown raw c = policy.shown raw' c' := by
  have hshown : ∀ raw c, policy.Masks raw c ∧ policy.shown raw c = '_' ∨
      ¬policy.Masks raw c ∧ policy.shown raw c = c := by
    intro raw c
    unfold MetadataPolicy.Masks MetadataPolicy.shown
    cases policy.fullmatch raw <;> cases MetadataPolicy.safe c <;> simp
  unfold MetadataPolicy.LooksAlike
  rcases hshown raw c with ⟨hmask, hc⟩ | ⟨hmask, hc⟩ <;>
    rcases hshown raw' c' with ⟨hmask', hc'⟩ | ⟨hmask', hc'⟩
  · simp [hc, hc', hmask, hmask']
  · simp [hc, hc', hmask, hmask', eq_comm]
  · simp [hc, hc', hmask, hmask']
  · simp only [hc, hc', hmask, hmask', false_or, not_false_eq_true, and_true, or_iff_right_iff_imp]
    rintro ⟨rfl, rfl⟩
    rfl

/-- An adopted name is the spelling of the raw name, as far as it is shown. -/
theorem applyName_toList {adopted : String} (h : policy.applyName raw = .ok adopted) :
    adopted.toList = (policy.spelling raw).map (policy.shown raw) := by
  unfold MetadataPolicy.applyName at h
  unfold MetadataPolicy.spelling
  split at h
  · next haccepted =>
    obtain rfl := Except.ok.inj h
    have hshown : policy.shown raw = id := by
      funext c
      simp [MetadataPolicy.shown, haccepted]
    simp [haccepted, hshown]
  · next hrefused =>
    have hshown : policy.shown raw = fun c => if MetadataPolicy.safe c then c else '_' := by
      funext c
      simp [MetadataPolicy.shown, hrefused]
    split at h
    · split at h
      · obtain rfl := Except.ok.inj h
        rw [hshown]
        by_cases hempty : raw = ""
        · subst hempty
          have hname : MetadataPolicy.sanitised "" = "mcp_tool" := rfl
          simp only [hrefused, hname]
          decide
        · have hreplaced :
              String.ofList (raw.toList.map fun c => if MetadataPolicy.safe c then c else '_') ≠ "" := by
            intro hnil
            have htext := congrArg String.toList hnil
            simp only [String.toList_ofList, String.toList_empty, List.map_eq_nil_iff,
              String.toList_eq_nil_iff] at htext
            exact hempty htext
          simp only [MetadataPolicy.sanitised]
          rw [if_neg hreplaced]
          simp [hempty]
      · cases h
    · cases h

/-- Adopted names are the same if their raw names look alike. -/
theorem applyName_eq_iff {adopted adopted' : String} (h : policy.applyName raw = .ok adopted)
    (h' : policy.applyName raw' = .ok adopted') :
    adopted = adopted' ↔
      List.Forall₂ (policy.LooksAlike raw raw') (policy.spelling raw) (policy.spelling raw') := by
  have halike : policy.LooksAlike raw raw' = fun c c' => policy.shown raw c = policy.shown raw' c' := by
    funext c c'
    exact propext looksAlike_iff
  rw [← String.toList_inj, applyName_toList h, applyName_toList h', halike, ← List.forall₂_eq_eq_eq,
    List.forall₂_map_left_iff, List.forall₂_map_right_iff]

theorem applyName_accepted (h : policy.fullmatch raw = true) : policy.applyName raw = .ok raw := by
  rw [MetadataPolicy.applyName, if_pos h]

/-- Where the raw names come from one server, or have prefixes, the adopted names are the
same exactly if the policy confuses the tools. -/
theorem confuses_iff (hprefixed : server = server' ∨ server.serverPrefix ≠ "" ∧ server'.serverPrefix ≠ "")
    {adopted adopted' : String} (h : policy.applyName (server.rawName name) = .ok adopted)
    (h' : policy.applyName (server'.rawName name') = .ok adopted') :
    adopted = adopted' ↔ policy.Confuses server server' name name' := by
  have hraw : server.rawName name = server'.rawName name' ↔
      RunsTogether server server' name name' ∨ RunsTogether server' server name' name := by
    rcases hprefixed with rfl | ⟨hown, hother⟩
    · rw [rawName_inj, runsTogether_self, runsTogether_self, eq_comm (a := name'), or_self]
    · exact rawName_eq_iff hown hother
  have htogether : server.rawName name = server'.rawName name' → adopted = adopted' := by
    intro heq
    rw [heq, h'] at h
    exact (Except.ok.inj h).symm
  constructor
  · intro heq
    by_cases haccepted : policy.fullmatch (server.rawName name) = true ∧
        policy.fullmatch (server'.rawName name') = true
    · rw [applyName_accepted haccepted.1] at h
      rw [applyName_accepted haccepted.2] at h'
      have hsame : server.rawName name = server'.rawName name' :=
        (Except.ok.inj h).trans (heq.trans (Except.ok.inj h').symm)
      exact (hraw.1 hsame).elim .together .together'
    · rw [not_and_or, Bool.not_eq_true, Bool.not_eq_true] at haccepted
      exact .masked haccepted ((applyName_eq_iff h h').1 heq)
  · rintro (htog | htog | ⟨-, halike⟩)
    · exact htogether (hraw.2 (.inl htog))
    · exact htogether (hraw.2 (.inr htog))
    · exact (applyName_eq_iff h h').2 halike

end

-- Registering what is discovered

section

variable {policy : MetadataPolicy} {servers : List Discovery} {tools : List RemoteTool} {tool : RemoteTool}

theorem mem_discoverTools {discovery : Discovery} {server : Nat}
    (h : discovery.discoverTools policy server = .ok tools) :
    tool ∈ tools ↔ tool.server = server ∧ tool.remoteName ∈ discovery.kept ∧
      policy.applyName (discovery.rawName tool.remoteName) = .ok tool.name := by
  have hbuild : ∀ remoteName, discovery.buildTool policy server remoteName = .ok tool ↔
      tool.server = server ∧ tool.remoteName = remoteName ∧
        policy.applyName (discovery.rawName remoteName) = .ok tool.name := by
    intro remoteName
    unfold Discovery.buildTool
    rw [Attempt.bind_eq_ok]
    constructor
    · rintro ⟨name, hname, heq⟩
      obtain rfl := Except.ok.inj heq
      exact ⟨rfl, rfl, hname⟩
    · rintro ⟨rfl, rfl, hname⟩
      exact ⟨_, hname, rfl⟩
  rw [Attempt.mem_mapM h]
  constructor
  · rintro ⟨remoteName, hremote, hname⟩
    obtain ⟨hserver, rfl, hname⟩ := (hbuild remoteName).1 hname
    exact ⟨hserver, hremote, hname⟩
  · rintro ⟨hserver, hremote, hname⟩
    exact ⟨_, hremote, (hbuild _).2 ⟨hserver, rfl, hname⟩⟩

/-- The remote tools at these servers that discovery does not leave out. -/
def Offers (servers : List Discovery) (server : Nat) (discovery : Discovery) (remoteName : String) : Prop :=
  servers[server]? = some discovery ∧ remoteName ∈ discovery.kept

/-- Where discovery succeeds, every tool on offer gets a name. -/
theorem discovered {server : Nat} {discovery : Discovery} (h : discoverAll policy servers = .ok tools)
    (hoffer : Offers servers server discovery remoteName) :
    ∃ list name, discovery.discoverTools policy server = .ok list ∧
      policy.applyName (discovery.rawName remoteName) = .ok name := by
  obtain ⟨lists, hlists, -⟩ := Attempt.bind_eq_ok.1 h
  have hentry : (discovery, server) ∈ servers.zipIdx := List.mem_zipIdx_iff_getElem?.2 hoffer.1
  obtain ⟨list, hlist⟩ := Attempt.exists_of_mapM hlists hentry
  obtain ⟨tool, htool⟩ := Attempt.exists_of_mapM hlist hoffer.2
  obtain ⟨name, hname, -⟩ := Attempt.bind_eq_ok.1 htool
  exact ⟨list, name, hlist, hname⟩

theorem mem_discoverAll (h : discoverAll policy servers = .ok tools) :
    tool ∈ tools ↔ ∃ discovery, Offers servers tool.server discovery tool.remoteName ∧
      policy.applyName (discovery.rawName tool.remoteName) = .ok tool.name := by
  obtain ⟨lists, hlists, hflat⟩ := Attempt.bind_eq_ok.1 h
  obtain rfl := Except.ok.inj hflat
  rw [List.mem_flatten]
  simp only [Attempt.mem_mapM hlists]
  constructor
  · rintro ⟨list, ⟨⟨discovery, server⟩, hserver, hlist⟩, hmem⟩
    obtain ⟨rfl, hremote, hname⟩ := (mem_discoverTools hlist).1 hmem
    exact ⟨discovery, ⟨List.mem_zipIdx_iff_getElem?.1 hserver, hremote⟩, hname⟩
  · rintro ⟨discovery, hoffer, hname⟩
    obtain ⟨list, _, hlist, -⟩ := discovered h hoffer
    have hentry : (discovery, tool.server) ∈ servers.zipIdx := List.mem_zipIdx_iff_getElem?.2 hoffer.1
    exact ⟨list, ⟨_, hentry, hlist⟩, (mem_discoverTools hlist).2 ⟨rfl, hoffer.2, hname⟩⟩

theorem get?_register_other {name : String} (table : OrderedDict RemoteTool)
    (h : ∀ tool ∈ tools, tool.name ≠ name) :
    (tools.foldl RemoteTool.register table).get? name = table.get? name := by
  induction tools generalizing table with
  | nil => rfl
  | cons tool rest ih =>
    rw [List.forall_mem_cons] at h
    rw [List.foldl_cons, ih _ h.2, RemoteTool.register, OrderedDict.get?_insert, if_neg h.1.symm]

/-- Under a name stands a tool of that name. -/
theorem get?_register {name : String} (table : OrderedDict RemoteTool) (h : ∃ tool ∈ tools, tool.name = name) :
    ∃ tool ∈ tools, tool.name = name ∧ (tools.foldl RemoteTool.register table).get? name = some tool := by
  induction tools generalizing table with
  | nil =>
    obtain ⟨tool, hmem, -⟩ := h
    cases hmem
  | cons tool rest ih =>
    by_cases hrest : ∃ other ∈ rest, other.name = name
    · obtain ⟨other, hmem, hname, hget⟩ := ih (RemoteTool.register table tool) hrest
      exact ⟨other, List.mem_cons_of_mem _ hmem, hname, hget⟩
    · obtain rfl : tool.name = name := by
        obtain ⟨other, hmem, hname⟩ := h
        rcases List.mem_cons.1 hmem with rfl | hmem
        · exact hname
        · exact absurd ⟨other, hmem, hname⟩ hrest
      refine ⟨tool, List.mem_cons_self, rfl, ?_⟩
      rw [List.foldl_cons, get?_register_other _ fun other hmem hname => hrest ⟨other, hmem, hname⟩,
        RemoteTool.register, OrderedDict.get?_insert, if_pos rfl]

/-- Tools with names of their own stay registered. -/
theorem separate_of_names (h : ∀ tool ∈ tools, ∀ other ∈ tools,
    (tool.server, tool.remoteName) ≠ (other.server, other.remoteName) → tool.name ≠ other.name) :
    RemoteTool.Separate tools := by
  refine ⟨h, fun tool hmem => ?_⟩
  obtain ⟨other, hother, hname, hget⟩ := get?_register .empty ⟨tool, hmem, rfl⟩
  have hsame : (tool.server, tool.remoteName) = (other.server, other.remoteName) := by
    by_contra hne
    exact h tool hmem other hother hne hname.symm
  obtain ⟨server, remoteName, name⟩ := tool
  obtain ⟨server', remoteName', name'⟩ := other
  cases hsame
  cases hname
  exact hget

/-- Tools of one server, or of servers with prefixes, are kept apart exactly if the policy
confuses no two of them. -/
theorem separate_iff
    (hprefixed : (∃ discovery, servers = [discovery]) ∨ ∀ discovery ∈ servers, discovery.serverPrefix ≠ "")
    (h : discoverAll policy servers = .ok tools) :
    RemoteTool.Separate tools ↔
      ∀ server discovery name server' discovery' name', Offers servers server discovery name →
        Offers servers server' discovery' name' → (server, name) ≠ (server', name') →
        ¬policy.Confuses discovery discovery' name name' := by
  have hservers : ∀ discovery ∈ servers, ∀ discovery' ∈ servers,
      discovery = discovery' ∨ discovery.serverPrefix ≠ "" ∧ discovery'.serverPrefix ≠ "" := by
    intro discovery hmem discovery' hmem'
    rcases hprefixed with ⟨only, rfl⟩ | hall
    · exact .inl ((List.mem_singleton.1 hmem).trans (List.mem_singleton.1 hmem').symm)
    · exact .inr ⟨hall _ hmem, hall _ hmem'⟩
  constructor
  · intro hseparate server discovery name server' discovery' name' hoffer hoffer' hne hconfused
    obtain ⟨_, adopted, -, hadopted⟩ := discovered h hoffer
    obtain ⟨_, adopted', -, hadopted'⟩ := discovered h hoffer'
    have hmem : ⟨server, name, adopted⟩ ∈ tools := (mem_discoverAll h).2 ⟨discovery, hoffer, hadopted⟩
    have hmem' : ⟨server', name', adopted'⟩ ∈ tools := (mem_discoverAll h).2 ⟨discovery', hoffer', hadopted'⟩
    have hprefixes := hservers _ (List.mem_of_getElem? hoffer.1) _ (List.mem_of_getElem? hoffer'.1)
    exact hseparate.names _ hmem _ hmem' hne ((confuses_iff hprefixes hadopted hadopted').2 hconfused)
  · intro hclear
    refine separate_of_names fun tool hmem other hother hne heq => ?_
    obtain ⟨discovery, hoffer, hname⟩ := (mem_discoverAll h).1 hmem
    obtain ⟨discovery', hoffer', hname'⟩ := (mem_discoverAll h).1 hother
    have hprefixes := hservers _ (List.mem_of_getElem? hoffer.1) _ (List.mem_of_getElem? hoffer'.1)
    exact hclear _ _ _ _ _ _ hoffer hoffer' hne ((confuses_iff hprefixes hname hname').1 heq)

/-- Two servers that each list one tool. -/
def pairOf (first firstTool second secondTool : String) : List Discovery :=
  [{ serverPrefix := first, catalogue := [firstTool] }, { serverPrefix := second, catalogue := [secondTool] }]

theorem separate_iff_github :
    RemoteTool.Separate [⟨0, "search", "github__search"⟩, ⟨1, "search", "jira__search"⟩] ↔
      ∀ server discovery name server' discovery' name',
        Offers (pairOf "github" "search" "jira" "search") server discovery name →
        Offers (pairOf "github" "search" "jira" "search") server' discovery' name' →
        (server, name) ≠ (server', name') →
        ¬(MetadataPolicy.default .error).Confuses discovery discovery' name name' :=
  separate_iff (.inr (by decide)) (by decide +kernel)

/-- The separator is a part of the second prefix: `a__b` and `c` make the same name as `a`
and `b__c`. -/
theorem split_confused :
    ∃ tools, discoverAll (MetadataPolicy.default .error) (pairOf "a" "b__c" "a__b" "c") = .ok tools ∧
      ¬RemoteTool.Separate tools := by
  refine ⟨[⟨0, "b__c", "a__b__c"⟩, ⟨1, "c", "a__b__c"⟩], by decide +kernel, fun hseparate => ?_⟩
  exact hseparate.names _ List.mem_cons_self _ (List.mem_cons_of_mem _ List.mem_cons_self) (by decide) rfl

end

end ChainWeaver
