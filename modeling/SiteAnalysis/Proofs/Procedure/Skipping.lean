import SiteAnalysis.Proofs.Run.Protocol

set_option autoImplicit false

/-! # Skipped configurations

A configuration is known by its name, and its version tells whether it has changed. Main statements:

* `Procedure.skipped_iff_version`: after any runs, which configurations are skipped. It is those
  that are as their last successful run left them if they stem from what it left, by fewer changes
  than a version can count.
* `Procedure.skipped_otherSite`: a configuration with another site is skipped for its name and
  version.
-/

namespace SiteAnalysis

/-! ## Changes -/

/-- **A configuration comes from another by some changes** of its contents. -/
inductive Configuration.Changes (c : Configuration) : Nat → Configuration → Prop
  | none : c.Changes 0 c
  | setCell {k : Nat} {d : Configuration} (cell : Cell Float) (h : c.Changes k d) :
      c.Changes (k + 1) (d.setCell cell)
  | addSite {k : Nat} {d : Configuration} (r : SiteRecord) (h : c.Changes k d) :
      c.Changes (k + 1) (d.addSite r)
  | changed {k : Nat} {d : Configuration} (h : c.Changes k d) : c.Changes (k + 1) d.changed

namespace Configuration.Changes

variable {c d : Configuration} {k : Nat}

theorem eq_of_zero (h : c.Changes 0 d) : d = c := by
  cases h
  rfl

/-- The version counts the changes in 64 bits. -/
theorem version_eq (h : c.Changes k d) (hk : 0 < k) :
    d.version = (c.version + k) % UInt64.size := by
  have hstep : ∀ {k : Nat} {d : Configuration}, c.Changes k d →
      (0 < k → d.version = (c.version + k) % UInt64.size) →
        (d.version + 1) % UInt64.size = (c.version + (k + 1)) % UInt64.size := by
    intro k d h ih
    rcases Nat.eq_zero_or_pos k with rfl | hpos
    · rw [h.eq_of_zero]
    · rw [ih hpos, Nat.mod_add_mod, Nat.add_assoc]
  induction h with
  | none => cases hk
  | setCell cell h ih | addSite r h ih | changed h ih => exact (hstep h ih :)

/-- Fewer changes than a version can count do not lead back to it. -/
theorem version_eq_iff (h : c.Changes k d) (hk : k < UInt64.size) :
    c.version = d.version ↔ d = c := by
  refine ⟨fun hsame => ?_, fun heq => by rw [heq]⟩
  rcases Nat.eq_zero_or_pos k with rfl | hpos
  · exact h.eq_of_zero
  · have hversion := h.version_eq hpos
    have hsize : UInt64.size = 0x10000000000000000 := rfl
    rw [hsize] at hk hversion
    omega

end Configuration.Changes

/-! ## Requests -/

/-- **A request to run** over a configuration. -/
structure Request where
  configuration : Configuration
  results : Results
  folder : Folder
  pool : Pool Float
  group : String
  time : String

/-- Whether a run was made and all its phases came out. -/
def RunReport.isSuccess (r : RunReport) : Bool :=
  match r.outcome with
  | .ok .executed => true
  | _ => false

/-- **The configuration at the end of the last successful run** under a name. -/
def lastEnd? (name : String) (reports : List RunReport) : Option Configuration :=
  (reports.reverse.find? fun r => r.isSuccess && r.configuration.name == name).map
    RunReport.configuration

namespace Procedure

/-- The report on a request. -/
def serve (p : Procedure) (r : Request) : RunReport :=
  p.execute r.configuration r.results r.folder r.pool r.group r.time

/-- **The procedure after some requests**, one after the other, and the reports on them. -/
def serveAll (p : Procedure) : List Request → Procedure × List RunReport
  | [] => (p, [])
  | r :: rest =>
    let (q, reports) := (p.serve r).procedure.serveAll rest
    (q, p.serve r :: reports)

/-- **What may become of a request**: it is skipped for the version that is noted, or it fails and
notes nothing, or it succeeds and its version is noted in the end. -/
theorem serve_cases (p : Procedure) (r : Request) :
    (p.isUnchanged r.configuration = true ∧ (p.serve r).outcome = .ok .skipped ∧
      (p.serve r).procedure.versions = p.versions) ∨
    (p.isUnchanged r.configuration = false ∧ (∃ e, (p.serve r).outcome = .error e) ∧
      (p.serve r).procedure.versions = p.versions) ∨
    (p.isUnchanged r.configuration = false ∧ (p.serve r).outcome = .ok .executed ∧
      ∀ name, (p.serve r).procedure.versions.lookup name =
        if name = (p.serve r).configuration.name then some (p.serve r).configuration.version
        else p.versions.lookup name) := by
  cases hchanged : p.isUnchanged r.configuration with
  | true =>
      have hreport : p.serve r =
          ⟨.ok .skipped, p, r.configuration, r.results, r.folder, []⟩ := by
        rw [serve, execute, hchanged, if_pos rfl]
      rw [hreport]
      exact .inl ⟨rfl, rfl, rfl⟩
  | false =>
      refine .inr ?_
      -- References are resolved first, and no node runs unless that succeeds.
      cases hlink : p.link with
      | mk linked q =>
          have hversions : q.versions = p.versions := congrArg (fun r => r.2.versions) hlink.symm
          cases linked with
          | error e =>
              have hreport : p.serve r = ⟨.error (e.withContext "Resolving node references"), q,
                  r.configuration, r.results, r.folder, []⟩ := by
                rw [serve, execute, hchanged, hlink]
                rfl
              rw [hreport]
              exact .inl ⟨rfl, ⟨_, rfl⟩, hversions⟩
          | ok u =>
              have hreport := execute_eq_of_link r.results r.folder r.pool r.group r.time hchanged
                hlink
              change p.serve r = _ at hreport
              generalize Job.run _ _ = came at hreport
              obtain ⟨came, run⟩ := came
              cases came with
              | error e =>
                  dsimp only at hreport
                  rw [hreport]
                  exact .inl ⟨rfl, ⟨_, rfl⟩, hversions⟩
              | ok u =>
                  dsimp only at hreport
                  rw [hreport]
                  refine .inr ⟨rfl, rfl, fun name => ?_⟩
                  rw [lookup_noteVersion, ← hversions]

theorem skipped_iff_isUnchanged (p : Procedure) (r : Request) :
    (p.serve r).outcome = .ok .skipped ↔ p.isUnchanged r.configuration = true := by
  rcases p.serve_cases r with ⟨hsame, hskipped, -⟩ | ⟨hchanged, ⟨e, hfailed⟩, -⟩ |
    ⟨hchanged, hdone, -⟩
  · simp [hsame, hskipped]
  · simp [hchanged, hfailed]
  · simp [hchanged, hdone]

/-- **A request notes the version** at the end of a successful run, and nothing else. -/
theorem lookup_serve (p : Procedure) (r : Request) (name : String) :
    (p.serve r).procedure.versions.lookup name =
      ((lastEnd? name [p.serve r]).map Configuration.version).or (p.versions.lookup name) := by
  rcases p.serve_cases r with ⟨-, hskipped, hversions⟩ | ⟨-, ⟨e, hfailed⟩, hversions⟩ |
    ⟨-, hdone, hversions⟩
  · simp [lastEnd?, RunReport.isSuccess, hskipped, hversions]
  · simp [lastEnd?, RunReport.isSuccess, hfailed, hversions]
  · rw [hversions name]
    by_cases hname : name = (p.serve r).configuration.name
    · simp [lastEnd?, RunReport.isSuccess, hdone, ← hname]
    · simp [lastEnd?, RunReport.isSuccess, hdone, hname, Ne.symm hname]

end Procedure

theorem lastEnd?_cons (name : String) (r : RunReport) (reports : List RunReport) :
    lastEnd? name (r :: reports) = (lastEnd? name reports).or (lastEnd? name [r]) := by
  simp only [lastEnd?, List.reverse_cons, List.find?_append, Option.map_or, List.reverse_nil,
    List.nil_append]

namespace Procedure

/-- **The versions that are noted** after some requests. -/
theorem lookup_serveAll (p : Procedure) (requests : List Request) (name : String) :
    (p.serveAll requests).1.versions.lookup name =
      ((lastEnd? name (p.serveAll requests).2).map Configuration.version).or
        (p.versions.lookup name) := by
  induction requests generalizing p with
  | nil => rfl
  | cons r rest ih =>
      rw [show (p.serveAll (r :: rest)).1 = ((p.serve r).procedure.serveAll rest).1 from rfl,
        show (p.serveAll (r :: rest)).2 = p.serve r :: ((p.serve r).procedure.serveAll rest).2 from
          rfl, ih, lookup_serve, lastEnd?_cons name (p.serve r) (serveAll _ rest).2, Option.map_or,
        Option.or_assoc]

/-- **Which configurations are skipped** after any requests to a procedure that was not run before:
those whose version is that of the configuration which the last successful run under their name
left. Of the configurations that come from it by fewer changes than a version can count, only itself
is skipped. -/
theorem skipped_iff_version (p : Procedure) (hnew : p.versions = []) (requests : List Request)
    (r : Request) :
    let left := lastEnd? r.configuration.name (p.serveAll requests).2
    let report := (p.serveAll requests).1.serve r
    (report.outcome = .ok .skipped ↔ ∃ c, left = some c ∧ c.version = r.configuration.version) ∧
    ∀ c, left = some c → ∀ k < UInt64.size, c.Changes k r.configuration →
      (report.outcome = .ok .skipped ↔ r.configuration = c) := by
  intro left report
  have hskipped : report.outcome = .ok .skipped ↔
      ∃ c, left = some c ∧ c.version = r.configuration.version := by
    rw [skipped_iff_isUnchanged, isUnchanged, lookup_serveAll, hnew]
    simp [left]
  refine ⟨hskipped, fun c hc k hk hchanges => ?_⟩
  rw [hskipped, hc, ← hchanges.version_eq_iff hk]
  simp

/-- A selection that looks for no sites. -/
def lone : Procedure :=
  let root := Procedure.ofContext .analysis "Analysis"
  { root with root := { root.root with
      nodes := .cons { Node.ofType ⟨0⟩ .select with name := "A" } .nil .nil } }

/-- A request over one site, of a molecule. -/
def loneSite (molecule : Nat) : Request where
  configuration := (Configuration.ofCell "Liquid" .unitCube).addSite
    ⟨"Water", "O", molecule, ⟨0, 0, 0⟩⟩
  results := .empty
  folder := .empty
  pool := .serial
  group := "Group"
  time := "now"

/-- A configuration to which another site was added is run again. -/
theorem skipped_iff_version_loneSite :
    let added := (loneSite 0).configuration.addSite ⟨"Water", "O", 1, ⟨0, 0, 0⟩⟩
    let r := { loneSite 0 with configuration := added }
    let left := lastEnd? r.configuration.name (lone.serveAll [loneSite 0]).2
    let report := (lone.serveAll [loneSite 0]).1.serve r
    lone.versions = [] ∧ left = some (loneSite 0).configuration ∧ report.outcome = .ok .executed ∧
    (report.outcome = .ok .skipped ↔ ∃ c, left = some c ∧ c.version = r.configuration.version) ∧
    ∀ c, left = some c → ∀ k < UInt64.size, c.Changes k r.configuration →
      (report.outcome = .ok .skipped ↔ r.configuration = c) := by
  intro added r left report
  have hnew : lone.versions = [] := rfl
  exact ⟨hnew, rfl, rfl, skipped_iff_version lone hnew [loneSite 0] r⟩

/-- **Another site is skipped** if it goes by the same name and version. -/
theorem skipped_otherSite :
    (lone.serveAll [loneSite 0]).2.map RunReport.outcome = [.ok .executed] ∧
    lastEnd? "Liquid" (lone.serveAll [loneSite 0]).2 = some (loneSite 0).configuration ∧
    ((lone.serveAll [loneSite 0]).1.serve (loneSite 1)).outcome = .ok .skipped ∧
    (loneSite 0).configuration.records ≠ (loneSite 1).configuration.records := by
  refine ⟨rfl, rfl, rfl, fun h => ?_⟩
  have hmolecule := congrArg (List.map SiteRecord.molecule) h
  cases hmolecule

end Procedure

end SiteAnalysis
