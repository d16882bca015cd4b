import ScottyCore.Lib.Search
import ScottyCore.Lib.Text

namespace ScottyCore
open Python TextSearch
set_option autoImplicit true

/-! ## `CLAUDE.md` of an app -/

def claudeSectionMarker : String := "<!-- scottycore-integration -->"

def appHeaderMarker : String := "<!-- scottycore-app-header -->"

/-- `end_marker` -/
def endMarker : String := "<!-- /scottycore-app-header -->"

def pipelineEndMarker : String := "<!-- /scottycore-integration -->"

def sessionHeading : String := "## Session-start: check pipeline feedback"

/-- What is known of an app's deployment. -/
structure Deployment where
  app_name : String
  fqdn : String
  port : Int
  lxc_vmid : Option Int
  lxc_ip : Option String

/-- `lxc_ip` where it is not empty. -/
def Deployment.knownIp (d : Deployment) : Option String := d.lxc_ip.filter (· ≠ "")

def unlines (lines : List String) : List Char := lines.flatMap fun line => line.toList ++ ['\n']

/-- The lines of `header` between its two markers. -/
def headerBody (d : Deployment) : List String :=
  let app_name := d.app_name
  let fqdn := d.fqdn
  let port := d.port
  let vmid_str := match d.lxc_vmid with
    | some lxc_vmid => s!"CT {lxc_vmid}"
    | none => "_not yet provisioned_"
  let ip_str := d.knownIp.getD "_not yet provisioned_"
  let upstream_str := match d.knownIp with
    | some lxc_ip => s!"http://{lxc_ip}:{port}"
    | none => s!"http://{app_name}.melbourne:{port} (placeholder)"
  let ssh_ip := if ip_str = "" then "<lxc-ip>" else ip_str
  [
    "> **Status: freshly scaffolded from scottycore. Domain logic is empty; the",
    "> container runs the unmodified framework and responds to `/health`.**",
    ">",
    "> First session move: fill in the `## Domain` section below with what this",
    "> app is actually supposed to do, then start building service modules under",
    "> `scottycore/services/`. Until then, every request beyond `/health` will",
    "> 404 — that's expected.",
    "",
    "## What this is",
    "",
    "A FastAPI app scaffolded from [scottycore](/script/scottycore). Inherits the",
    "full framework: auth (Cloudflare / Azure / JWT / API key), multi-tenant RBAC,",
    "4-tier settings KV, audit log, ai_backends multi-provider routing, admin API,",
    "request logging, TOTP. See `/script/scottycore/CLAUDE.md` for the framework",
    "reference; everything here is additive on top of that.",
    "",
    "## Live deployment",
    "",
    "| | |",
    "|---|---|",
    s!"| **Public URL** | https://{fqdn} |",
    s!"| **Nginx upstream** | {upstream_str} |",
    s!"| **LXC** | {vmid_str} on proxmox1 ({ip_str}) |",
    s!"| **Host port (Docker)** | `{port}` (container listens on 8000 internally) |",
    s!"| **Container image** | `{app_name}:latest` (built locally via `docker compose`) |",
    s!"| **Forgejo** | https://forgejo.scotty.consulting/scotty/{app_name} |",
    s!"| **GitHub (mirror)** | https://github.com/scrampker/{app_name} |",
    "",
    "## Deployment paths",
    "",
    "- **Dev (fast iterate)** — run directly on `192.168.150.6` via `launch.py`.",
    s!"  Listens on `:{port}` like the container does. Hot-reload via `--reload` if",
    "  you add it.",
    "- **Prod-in-a-box (normal)** — the LXC above, Docker via `docker-compose.yml`.",
    s!"  Redeploy with `ssh {ssh_ip} 'cd /opt/scottycore/{app_name} \\",
    "  && git pull && docker compose up -d --build'`, or run",
    s!"  `ansible-playbook workloads/scottycore-apps.yml -l {app_name}.melbourne`",
    "  from `/script/scottylab/automation/ansible/`.",
    "",
    "## DNS path (for reference)",
    "",
    "```",
    "scottybiz.corpaholics.com",
    "     │",
    "     ├─ external (internet)    → Cloudflare proxy → melbourne tunnel → nginx vhost → upstream",
    "     └─ LAN (behind UniFi)     → UniFi local DNS  → nginx directly   → vhost       → upstream",
    "```",
    "",
    "The `*.corpaholics.com` UniFi wildcard + CF tunnel ingress were installed by",
    "`scottycore-init.py` and are idempotently reconciled on every re-run. Nothing",
    "to do here unless you're changing how requests route.",
    "",
    "## Domain",
    "",
    "_TBD — replace this section with what this app actually does, which service",
    "modules it needs under `scottycore/services/`, and any non-scottycore",
    "dependencies (GPU, Redis, external APIs, etc.)._",
    "",
    "## Useful commands",
    "",
    "```bash",
    "# Health check (external)",
    s!"curl -sSf https://{fqdn}/health",
    "",
    "# Health check (direct to LXC)",
    s!"curl -sSf http://{ssh_ip}:{port}/health",
    "",
    "# Container logs",
    s!"ssh {ssh_ip} 'docker logs scottybiz --tail 50'",
    "",
    "# Rebuild & restart container",
    s!"ssh {ssh_ip} 'cd /opt/scottycore/{app_name} && docker compose up -d --build'",
    "",
    "# Reconcile everything (idempotent — heals any drift)",
    s!"python3 /script/scottycore/scripts/scottycore-init.py /script/{app_name} --name {app_name}",
    "```"
  ]

/-- The lines of `pipeline` after its marker. -/
def pipelineBody (app_name : String) : List String :=
  [
    "## ScottyCore Pipeline",
    "",
    "This app depends on the [scottycore](/script/scottycore) package (pinned in",
    "`pyproject.toml` via",
    "`git+https://forgejo.scotty.consulting/scotty/scottycore.git@vX.Y.Z`).",
    "",
    "### Automated pipeline",
    "",
    "**Upward — `.forgejo/workflows/promote-scan.yml`**: every push to master runs",
    "a `claude -p` classifier on the Python diff. If code looks like shared-library",
    "material, it dispatches scottycore's `promote-receive.yml` for autonomous",
    "extraction + release.",
    "",
    "**Downward — `.forgejo/workflows/scottycore-upgrade.yml`**: when scottycore",
    "cuts a release, this app receives a workflow_dispatch that bumps the pin,",
    "runs CI, and has the manager agent classify the PR as GREEN / YELLOW / RED.",
    "",
    "### `/promote` skill",
    "",
    "To proactively move code to scottycore without waiting for the next push,",
    "invoke `/promote <path>` from a Claude Code session.",
    "",
    "### Kill switches",
    "",
    "- `export SCOTTYCORE_SKIP_PROMOTE_NUDGE=1` — disables local pre-commit nudge",
    "- Remove `.forgejo/workflows/promote-scan.yml` — disables server-side scan",
    pipelineEndMarker,
    "",
    sessionHeading,
    "",
    "```bash",
    "git fetch --quiet origin",
    "TOKEN=$(cat ~/.config/forgejo-token 2>/dev/null)",
    "[ -n \"$TOKEN\" ] && for sha in $(git log -5 --format='%H' origin/master); do",
    "    COMMENTS=$(curl -s -H \"Authorization: token $TOKEN\" \\",
    s!"      \"https://forgejo.scotty.consulting/api/v1/repos/scotty/{app_name}" ++
      "/commits/$sha/comments\")",
    "    if echo \"$COMMENTS\" | grep -q '\"body\"'; then",
    "        echo \"=== $sha ===\"",
    "        echo \"$COMMENTS\" | python3 -c " ++
      "\"import json,sys;[print(c['body']) for c in json.load(sys.stdin)]\"",
    "    fi",
    "done",
    "```",
    "Report any scottycore-bot comments before starting work."
  ]

def header (d : Deployment) : List Char :=
  unlines (["# " ++ d.app_name, "", appHeaderMarker] ++ headerBody d ++ [endMarker, ""])

def pipeline (d : Deployment) : List Char :=
  unlines (["", claudeSectionMarker] ++ pipelineBody d.app_name)

def renderAppClaudeMd (d : Deployment) : List Char := header d ++ pipeline d

/-- `existing.lstrip().startswith("# ScottyCore")` -/
def IsTemplate (existing : List Char) : Prop :=
  "# ScottyCore".toList <+: existing.dropWhile isSpace

instance (existing : List Char) : Decidable (IsTemplate existing) :=
  inferInstanceAs (Decidable (_ <+: _))

/-- `rendered.split(end_marker)[0]` -/
def beforeEnd (rendered : List Char) : List Char :=
  match cut endMarker.toList rendered with
  | some (before, _) => before
  | none => rendered

/-- The text that `write_app_claude_md` leaves in the file. -/
def writeAppClaudeMd (d : Deployment) (claude_md : Option (List Char)) : List Char :=
  let rendered := renderAppClaudeMd d
  match claude_md.map universalNewlines with
  | none => rendered
  | some existing =>
    if IsTemplate existing then rendered
    else
      match cut appHeaderMarker.toList existing, cut endMarker.toList existing with
      -- `h1_start` is computed here and not used: what is before the header goes too
      | some _, some (_, after) => rendered ++ after.dropWhile (· = '\n')
      | _, _ =>
        if claudeSectionMarker.toList <:+: existing then
          beforeEnd rendered ++ endMarker.toList ++ ['\n', '\n'] ++ existing
        else rendered

/-! ## What a further run promises -/

/-- What a `CLAUDE.md` is put together from. -/
inductive ClaudeMdPart where
  | header (d : Deployment)
  | pipeline (d : Deployment)
  | template (text : List Char) (h : IsTemplate text)
  | human (text : List Char)

def ClaudeMdPart.text : ClaudeMdPart → List Char
  | .header d => ScottyCore.header d
  | .pipeline d => ScottyCore.pipeline d
  | .template text _ => text
  | .human text => text

def claudeMdText (parts : Option (List ClaudeMdPart)) : Option (List Char) :=
  parts.map (List.flatMap ClaudeMdPart.text)

/-- The beginnings and the ends of the generated sections. -/
def sectionMarkers : List String :=
  [appHeaderMarker, endMarker, claudeSectionMarker, pipelineEndMarker, sessionHeading]

structure Rerendered (d : Deployment) (parts : Option (List ClaudeMdPart)) : Prop where
  kept : ∀ ps ∈ parts, ∀ text, .human text ∈ ps →
    universalNewlines text <:+: universalNewlines (writeAppClaudeMd d (claudeMdText parts))
  once : ∀ marker ∈ sectionMarkers,
    occurrences marker.toList (writeAppClaudeMd d (claudeMdText parts)) = 1
  again : writeAppClaudeMd d (some (writeAppClaudeMd d (claudeMdText parts))) =
    writeAppClaudeMd d (claudeMdText parts)

/-- A file that the run replaces by the rendered text and nothing else. -/
structure NothingElse (d : Deployment) (existing : List Char) : Prop where
  after_header : appHeaderMarker.toList <:+: existing → ∀ before after,
    cut endMarker.toList existing = some (before, after) → ∀ c ∈ after, c = '\n'
  only_pipeline : ¬ (appHeaderMarker.toList <:+: existing ∧ endMarker.toList <:+: existing) →
    claudeSectionMarker.toList <:+: existing → existing = pipeline d

/-! ## The rendered text -/

theorem unlines_nil : unlines [] = [] := rfl

theorem unlines_cons (line : String) (lines : List String) :
    unlines (line :: lines) = line.toList ++ '\n' :: unlines lines := by
  rw [unlines, List.flatMap_cons, List.append_assoc]
  rfl

theorem unlines_append (as bs : List String) : unlines (as ++ bs) = unlines as ++ unlines bs :=
  List.flatMap_append

theorem unlines_ends {lines : List String} (h : lines ≠ []) :
    ∃ s, unlines lines = s ++ ['\n'] := by
  obtain rfl | ⟨as, line, rfl⟩ := List.eq_nil_or_concat lines
  · exact (h rfl).elim
  · refine ⟨unlines as ++ line.toList, ?_⟩
    rw [List.concat_eq_append, unlines_append, unlines_cons, List.append_assoc]
    rfl

theorem pipeline_begins (d : Deployment) :
    ∃ body, pipeline d = '\n' :: (claudeSectionMarker.toList ++ '\n' :: body) := by
  refine ⟨unlines (pipelineBody d.app_name), ?_⟩
  rw [pipeline, unlines_append, unlines_cons, unlines_cons, List.append_assoc]
  rfl

theorem pipeline_ends (d : Deployment) : ∃ body, pipeline d = body ++ ['\n'] :=
  unlines_ends (List.cons_ne_nil _ _)

theorem header_begins (d : Deployment) : ∃ start,
    header d = start ++ (endMarker.toList ++ ['\n', '\n']) ∧
    ∃ rest, start = "# ".toList ++ (d.app_name.toList ++
      '\n' :: '\n' :: (appHeaderMarker.toList ++ rest)) := by
  refine ⟨_, ?_, '\n' :: unlines (headerBody d), rfl⟩
  rw [header, unlines_append, unlines_append, unlines_cons, unlines_cons, unlines_cons,
    String.toList_append]
  simp only [unlines_cons, unlines_nil, List.append_assoc, List.cons_append, String.toList_empty,
    List.nil_append]

/-- A word of the markers and headings: no line ends in it. -/
theorem endMarker_word : ∀ c ∈ endMarker.toList, c ≠ '\n' ∧ c ≠ '\r' :=
  forall_mem_of_all rfl

theorem appHeaderMarker_word : ∀ c ∈ appHeaderMarker.toList, c ≠ '\n' ∧ c ≠ '\r' :=
  forall_mem_of_all rfl

theorem claudeSectionMarker_word : ∀ c ∈ claudeSectionMarker.toList, c ≠ '\n' ∧ c ≠ '\r' :=
  forall_mem_of_all rfl

theorem templateStart_word : ∀ c ∈ "# ScottyCore".toList, c ≠ '\n' ∧ c ≠ '\r' :=
  forall_mem_of_all rfl

theorem renderAppClaudeMd_split (d : Deployment) : ∃ start,
    renderAppClaudeMd d = start ++ (endMarker.toList ++ '\n' :: '\n' :: pipeline d) ∧
      appHeaderMarker.toList <:+: start := by
  obtain ⟨start, hheader, rest, hstart⟩ := header_begins d
  refine ⟨start, ?_, "# ".toList ++ (d.app_name.toList ++ ['\n', '\n']), rest, ?_⟩
  · rw [renderAppClaudeMd, hheader, List.append_assoc, List.append_assoc]
    rfl
  · rw [hstart]
    simp only [List.append_assoc, List.cons_append, List.nil_append]

/-- The end marker is found, and the pipeline section is behind it. -/
theorem exists_beforeEnd (d : Deployment) : ∃ rest,
    renderAppClaudeMd d = beforeEnd (renderAppClaudeMd d) ++ (endMarker.toList ++ rest) ∧
      '\n' :: '\n' :: pipeline d <:+ rest := by
  obtain ⟨start, hrender, -⟩ := renderAppClaudeMd_split d
  obtain ⟨before, rest, hcut, -, hsuffix⟩ := exists_cut hrender
  refine ⟨rest, ?_, hsuffix⟩
  rw [beforeEnd, hcut]
  exact (cut_eq_some_iff.1 hcut).1

theorem renderAppClaudeMd_begins (d : Deployment) :
    ∃ rest, renderAppClaudeMd d = "# ".toList ++ (d.app_name.toList ++ '\n' :: rest) := by
  obtain ⟨start, hheader, rest, hstart⟩ := header_begins d
  rw [hstart, List.append_assoc, List.append_assoc, List.cons_append] at hheader
  rw [renderAppClaudeMd, hheader, List.append_assoc, List.append_assoc, List.cons_append]
  exact ⟨_, rfl⟩

/-- The rendered text begins like the template where the name does. -/
theorem template_prefix_iff (d : Deployment) : "# ScottyCore".toList <+: renderAppClaudeMd d ↔
    "ScottyCore".toList <+: d.app_name.toList := by
  obtain ⟨rest, hrender⟩ := renderAppClaudeMd_begins d
  have hnewline : '\n' ∉ "ScottyCore".toList := by decide
  have htitle : "# ScottyCore".toList = "# ".toList ++ "ScottyCore".toList := by decide
  rw [hrender, htitle]
  exact (List.prefix_append_right_inj _).trans (prefix_append_cons_iff hnewline)

/-! ## One run -/

section
variable {d : Deployment} {text : List Char} {claude_md : Option (List Char)}

/-- What a run leaves: the rendered text and what was behind a header, or the header before the
old text. -/
theorem write_cases (d : Deployment) (claude_md : Option (List Char)) :
    (∃ tail, '\r' ∉ tail ∧ writeAppClaudeMd d claude_md = renderAppClaudeMd d ++ tail) ∨
      ∃ existing, '\r' ∉ existing ∧ claudeSectionMarker.toList <:+: existing ∧
        writeAppClaudeMd d claude_md = beforeEnd (renderAppClaudeMd d) ++ endMarker.toList ++
          ['\n', '\n'] ++ existing := by
  have hplain : ∃ tail : List Char, '\r' ∉ tail ∧
      renderAppClaudeMd d = renderAppClaudeMd d ++ tail :=
    ⟨[], List.not_mem_nil, (List.append_nil _).symm⟩
  cases claude_md with
  | none => exact .inl hplain
  | some text =>
    have hreturn := no_return_universalNewlines text
    simp only [writeAppClaudeMd, Option.map_some]
    split
    · exact .inl hplain
    · split
      · rename_i before after _ hcut
        refine .inl ⟨_, fun hmem => hreturn ?_, rfl⟩
        rw [(cut_eq_some_iff.1 hcut).1]
        exact List.mem_append_right _ (List.mem_append_right _
          ((List.dropWhile_suffix _).subset hmem))
      · split
        · exact .inr ⟨_, hreturn, ‹_›, rfl⟩
        · exact .inl hplain

/-- A run's text begins as the rendered text does, up to the end marker. -/
theorem beforeEnd_prefix_write (d : Deployment) (claude_md : Option (List Char)) :
    beforeEnd (renderAppClaudeMd d) ++ endMarker.toList <+: writeAppClaudeMd d claude_md := by
  rcases write_cases d claude_md with ⟨tail, -, heq⟩ | ⟨existing, -, -, heq⟩
  · obtain ⟨rest, hrender, -⟩ := exists_beforeEnd d
    rw [heq]
    refine List.IsPrefix.trans ⟨rest, ?_⟩ (List.prefix_append _ tail)
    rw [List.append_assoc, ← hrender]
  · rw [heq, List.append_assoc _ ['\n', '\n']]
    exact List.prefix_append _ _

/-- What a run leaves is taken for the template where the name begins as its title does. -/
theorem isTemplate_write (d : Deployment) (claude_md : Option (List Char)) :
    IsTemplate (universalNewlines (writeAppClaudeMd d claude_md)) ↔
      "ScottyCore".toList <+: d.app_name.toList := by
  obtain ⟨rest, hrender, -⟩ := exists_beforeEnd d
  obtain ⟨tail, hwrite⟩ := beforeEnd_prefix_write d claude_md
  generalize hkept : beforeEnd (renderAppClaudeMd d) ++ endMarker.toList = kept at hwrite
  have hrender : renderAppClaudeMd d = kept ++ rest := by
    rw [← hkept, List.append_assoc, ← hrender]
  have hlength : "# ScottyCore".toList.length ≤ kept.length := by
    rw [← hkept, List.length_append]
    exact Nat.le_trans (by decide) (Nat.le_add_left _ _)
  obtain ⟨s, rfl⟩ : ∃ s, kept = '#' :: s := by
    cases kept with
    | nil => cases hlength
    | cons c s =>
      obtain ⟨_, hbegins⟩ := renderAppClaudeMd_begins d
      rw [hbegins] at hrender
      obtain ⟨rfl, -⟩ := List.cons.inj hrender
      exact ⟨s, rfl⟩
  rw [IsTemplate, ← hwrite, List.cons_append, universalNewlines_cons (by decide),
    List.dropWhile_cons_of_neg (by decide), ← universalNewlines_cons (by decide),
    ← List.cons_append, prefix_universalNewlines_iff templateStart_word,
    List.isPrefix_append_of_length hlength, ← template_prefix_iff, hrender,
    List.isPrefix_append_of_length hlength]

/-- A file that is taken for the template is rendered anew. -/
theorem write_of_isTemplate (h : IsTemplate (universalNewlines text)) :
    writeAppClaudeMd d (some text) = renderAppClaudeMd d := by
  simp only [writeAppClaudeMd, Option.map_some, if_pos h]

/-- Behind a header, only newlines go. -/
theorem write_of_header (h : ¬ IsTemplate (universalNewlines text))
    (hmarker : appHeaderMarker.toList <:+: universalNewlines text)
    (hcut : cut endMarker.toList (universalNewlines text) = some (before, after)) :
    writeAppClaudeMd d (some text) = renderAppClaudeMd d ++ after.dropWhile (· = '\n') := by
  cases hheader : cut appHeaderMarker.toList (universalNewlines text) with
  | none => exact (cut_eq_none_iff.1 hheader hmarker).elim
  | some r => simp only [writeAppClaudeMd, Option.map_some, if_neg h, hheader, hcut]

theorem write_of_no_header (h : ¬ IsTemplate (universalNewlines text))
    (hmarkers : ¬ (appHeaderMarker.toList <:+: universalNewlines text ∧
      endMarker.toList <:+: universalNewlines text)) :
    writeAppClaudeMd d (some text) =
      if claudeSectionMarker.toList <:+: universalNewlines text then
        beforeEnd (renderAppClaudeMd d) ++ endMarker.toList ++ ['\n', '\n'] ++
          universalNewlines text
      else renderAppClaudeMd d := by
  cases hheader : cut appHeaderMarker.toList (universalNewlines text) with
  | none => simp only [writeAppClaudeMd, Option.map_some, if_neg h, hheader]
  | some r =>
    cases hend : cut endMarker.toList (universalNewlines text) with
    | none => simp only [writeAppClaudeMd, Option.map_some, if_neg h, hheader, hend]
    | some r' => exact (hmarkers ⟨infix_of_cut hheader, infix_of_cut hend⟩).elim

/-- With one end marker, the rendered text is cut before the pipeline section. -/
theorem renderAppClaudeMd_eq (honce : occurrences endMarker.toList (renderAppClaudeMd d) = 1) :
    renderAppClaudeMd d =
      beforeEnd (renderAppClaudeMd d) ++ endMarker.toList ++ ['\n', '\n'] ++ pipeline d := by
  obtain ⟨start, hrender, -⟩ := renderAppClaudeMd_split d
  rw [hrender] at honce ⊢
  rw [beforeEnd, cut_of_occurrences honce]
  simp only [List.append_assoc, List.cons_append, List.nil_append]

/-- The rendered text is all that is left where the file has nothing to keep. -/
theorem write_eq_render_iff (honce : occurrences endMarker.toList (renderAppClaudeMd d) = 1) :
    writeAppClaudeMd d claude_md = renderAppClaudeMd d ↔ ∀ text ∈ claude_md,
      ¬ IsTemplate (universalNewlines text) → NothingElse d (universalNewlines text) := by
  cases claude_md with
  | none => exact iff_of_true rfl fun text h => nomatch h
  | some text =>
    have hall (P : List Char → Prop) : (∀ t ∈ some text, P t) ↔ P text :=
      ⟨fun h => h text rfl, fun h t ht => Option.some.inj ht ▸ h⟩
    rw [hall]
    by_cases htemplate : IsTemplate (universalNewlines text)
    · exact iff_of_true (write_of_isTemplate htemplate) fun h => (h htemplate).elim
    · rw [imp_iff_right htemplate]
      by_cases hmarkers : appHeaderMarker.toList <:+: universalNewlines text ∧
          endMarker.toList <:+: universalNewlines text
      · cases hcut : cut endMarker.toList (universalNewlines text) with
        | none => exact (cut_eq_none_iff.1 hcut hmarkers.2).elim
        | some r =>
          obtain ⟨before, after⟩ := r
          rw [write_of_header htemplate hmarkers.1 hcut, List.append_right_eq_self,
            List.dropWhile_eq_nil_iff]
          constructor
          · intro hafter
            refine ⟨fun _ before' after' hcut' c hc => ?_, fun hno => (hno hmarkers).elim⟩
            cases hcut.symm.trans hcut'
            exact of_decide_eq_true (hafter c hc)
          · exact fun h c hc => decide_eq_true (h.after_header hmarkers.1 before after hcut c hc)
      · have hiff : NothingElse d (universalNewlines text) ↔
            (claudeSectionMarker.toList <:+: universalNewlines text →
              universalNewlines text = pipeline d) :=
          ⟨fun h => h.only_pipeline hmarkers, fun h => ⟨fun hmarker before after hcut =>
            (hmarkers ⟨hmarker, infix_of_cut hcut⟩).elim, fun _ => h⟩⟩
        rw [write_of_no_header htemplate hmarkers, hiff]
        split
        · rename_i hsection
          rw [imp_iff_right hsection]
          conv_lhs => rhs; rw [renderAppClaudeMd_eq honce]
          exact List.append_right_inj _
        · rename_i hsection
          exact iff_of_true rfl fun h => (hsection h).elim

/-! ## The run after it -/

theorem section_infix_pipeline (d : Deployment) :
    claudeSectionMarker.toList <:+: '\n' :: '\n' :: pipeline d := by
  obtain ⟨body, hpipeline⟩ := pipeline_begins d
  exact ⟨['\n', '\n', '\n'], '\n' :: body, by rw [hpipeline]; rfl⟩

/-- After a run that wrote the rendered text, the next one adds the pipeline section again. -/
theorem write_ne_of_tail {tail : List Char} (htail : '\r' ∉ tail)
    (htemplate : ¬ IsTemplate (universalNewlines (renderAppClaudeMd d ++ tail))) :
    writeAppClaudeMd d (some (renderAppClaudeMd d ++ tail)) ≠ renderAppClaudeMd d ++ tail := by
  obtain ⟨start, hrender, hstart⟩ := renderAppClaudeMd_split d
  obtain ⟨body, hends⟩ := pipeline_ends d
  have hread : universalNewlines (renderAppClaudeMd d ++ tail) = universalNewlines start ++
      (endMarker.toList ++ (universalNewlines ('\n' :: '\n' :: pipeline d) ++ tail)) := by
    have hsplit : renderAppClaudeMd d ++ tail =
        start ++ (endMarker.toList ++ ('\n' :: '\n' :: body ++ '\n' :: tail)) := by
      rw [hrender, hends]
      simp only [List.append_assoc, List.cons_append, List.nil_append]
    rw [hsplit, universalNewlines_around (by decide) endMarker_word,
      universalNewlines_append, universalNewlines_of_plain htail, hends]
    rfl
  have hmarker : appHeaderMarker.toList <:+: universalNewlines (renderAppClaudeMd d ++ tail) := by
    refine (infix_universalNewlines (by decide) appHeaderMarker_word hstart).trans ?_
    rw [hread]
    exact (List.prefix_append _ _).isInfix
  obtain ⟨before, after, hcut, -, z, hafter⟩ := exists_cut hread
  rw [write_of_header htemplate hmarker hcut]
  intro heq
  have hread_section := infix_universalNewlines (by decide) claudeSectionMarker_word
    (section_infix_pipeline d)
  have hmem : '<' ∈ z ++ universalNewlines ('\n' :: '\n' :: pipeline d) :=
    List.mem_append_right z (hread_section.subset (by decide))
  have hlt := length_lt_dropWhile (p := fun c => decide (c = '\n')) hmem rfl tail
  rw [List.append_assoc, hafter, List.append_cancel_left heq] at hlt
  exact Nat.lt_irrefl _ hlt

/-- After a run that put the header before the old text, the next one puts more there. -/
theorem write_ne_of_section {existing written : List Char} (hexisting : '\r' ∉ existing)
    (hsection : claudeSectionMarker.toList <:+: existing)
    (hwrite : written = beforeEnd (renderAppClaudeMd d) ++ endMarker.toList ++ ['\n', '\n'] ++
      existing) (htemplate : ¬ IsTemplate (universalNewlines written)) :
    writeAppClaudeMd d (some written) ≠ written := by
  have hread : universalNewlines written = universalNewlines (beforeEnd (renderAppClaudeMd d)) ++
      (endMarker.toList ++ '\n' :: '\n' :: existing) := by
    have hplain : '\r' ∉ '\n' :: '\n' :: existing := by
      simpa using hexisting
    rw [hwrite, List.append_assoc, List.append_assoc,
      universalNewlines_around (by decide) endMarker_word]
    exact congrArg _ (congrArg _ (universalNewlines_of_plain hplain))
  have hend : endMarker.toList <:+: universalNewlines written :=
    ⟨_, _, by rw [hread, List.append_assoc]⟩
  by_cases hmarker : appHeaderMarker.toList <:+: universalNewlines written
  · obtain ⟨before, after, hcut, -, z, hafter⟩ := exists_cut hread
    obtain ⟨rest, hrender, y, hrest⟩ := exists_beforeEnd d
    rw [write_of_header htemplate hmarker hcut, hwrite]
    intro heq
    generalize beforeEnd (renderAppClaudeMd d) = before' at hrender heq
    rw [hrender, List.append_assoc, List.append_assoc, List.append_assoc, List.append_assoc] at heq
    have htails := List.append_cancel_left (List.append_cancel_left heq)
    obtain ⟨w, hw⟩ := dropWhile_suffix_append (· = '\n') (z ++ ['\n', '\n']) existing
    rw [List.append_assoc, List.cons_append, List.cons_append, List.nil_append, hafter] at hw
    rw [← hw, ← List.append_assoc] at htails
    conv_rhs at htails =>
      rw [← List.takeWhile_append_dropWhile (p := fun c => decide (c = '\n')) (l := existing),
        ← List.append_assoc]
    have hbreaks := List.append_cancel_right htails
    have hmem : '<' ∈ rest ++ w :=
      List.mem_append_left w (hrest ▸ List.mem_append_right y
        ((section_infix_pipeline d).subset (by decide)))
    rw [hbreaks] at hmem
    rcases List.mem_append.1 hmem with hmem | hmem
    · cases hmem with
      | tail _ hmem => cases List.mem_singleton.1 hmem
    · cases List.mem_takeWhile_imp hmem
  · rw [write_of_no_header htemplate fun h => hmarker h.1, if_pos, hwrite]
    · intro heq
      have hlength := congrArg List.length (List.append_cancel_left heq)
      rw [← hwrite, hread] at hlength
      simp only [List.length_append, List.length_cons] at hlength
      omega
    · refine hsection.trans ⟨universalNewlines (beforeEnd (renderAppClaudeMd d)) ++
        (endMarker.toList ++ ['\n', '\n']), [], ?_⟩
      rw [hread, List.append_nil, List.append_assoc, List.append_assoc]
      rfl

/-- A second run changes the file, whatever it was, unless the name makes the file look like the
template. -/
theorem write_write_ne (h : ¬ "ScottyCore".toList <+: d.app_name.toList)
    (claude_md : Option (List Char)) :
    writeAppClaudeMd d (some (writeAppClaudeMd d claude_md)) ≠ writeAppClaudeMd d claude_md := by
  have htemplate := mt (isTemplate_write d claude_md).1 h
  rcases write_cases d claude_md with ⟨tail, htail, heq⟩ | ⟨existing, hexisting, hsection, heq⟩
  · rw [heq] at htemplate ⊢
    exact write_ne_of_tail htail htemplate
  · exact write_ne_of_section hexisting hsection heq htemplate

end

/-- Only the rendered text of an app that is named like the template stays as it is. -/
theorem rerendered_iff (d : Deployment) (parts : Option (List ClaudeMdPart)) :
    Rerendered d parts ↔
      "ScottyCore".toList <+: d.app_name.toList ∧
      (∀ marker ∈ sectionMarkers, occurrences marker.toList (renderAppClaudeMd d) = 1) ∧
      (∀ ps ∈ parts, ∀ text, .human text ∈ ps →
        universalNewlines text <:+: universalNewlines (renderAppClaudeMd d)) ∧
      ∀ text ∈ claudeMdText parts, ¬ IsTemplate (universalNewlines text) →
        NothingElse d (universalNewlines text) := by
  have hend : endMarker ∈ sectionMarkers := List.mem_cons_of_mem _ List.mem_cons_self
  constructor
  · intro h
    have hname : "ScottyCore".toList <+: d.app_name.toList := by
      by_contra hname
      exact write_write_ne hname _ h.again
    have hwrite : writeAppClaudeMd d (claudeMdText parts) = renderAppClaudeMd d :=
      h.again.symm.trans (write_of_isTemplate ((isTemplate_write d _).2 hname))
    have hkept := h.kept
    have honce := h.once
    rw [hwrite] at hkept honce
    exact ⟨hname, honce, hkept, (write_eq_render_iff (honce _ hend)).1 hwrite⟩
  · rintro ⟨hname, honce, hkept, hnothing⟩
    have hwrite : writeAppClaudeMd d (claudeMdText parts) = renderAppClaudeMd d :=
      (write_eq_render_iff (honce _ hend)).2 hnothing
    have hagain := write_of_isTemplate (d := d) ((isTemplate_write d (claudeMdText parts)).2 hname)
    constructor
    · rw [hwrite]
      exact hkept
    · rw [hwrite]
      exact honce
    · rw [hagain, hwrite]

/-- A second run on a fresh file adds to it. -/
theorem not_rerendered : ¬ Rerendered
    ⟨"scottybiz", "scottybiz.corpaholics.com", 8123, some 217, some "192.168.150.90"⟩ none :=
  fun h => write_write_ne (by decide) none h.again

end ScottyCore
