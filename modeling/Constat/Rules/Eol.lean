import Constat.Catalog.Aws
import Constat.Rules.Models

/-!
# Rules.Eol

`constat_core/insights/eol.py` and the configurations of its three rules. `evaluateEol` gates on
four facts, parses the major version, looks up its end-of-life dates and takes one of three
branches by the date: force upgrade, in Extended Support, or inside the alert window. The titles
of the first and the last carry a countdown in days.
-/

namespace Constat

open Catalog

namespace Eol

def hoursPerMonth : Int := 730

/-- All the engine-specific knowledge for one engine value. A major is a JSON value: a number for
PostgreSQL and Aurora, text for MySQL. -/
structure EngineEolMatcher where
  engineValue : String
  displayName : String
  serviceCanonical : String
  lookupEolInfo : Json → Option EolInfo
  parseMajor : String → Except PyError (Option Json)
  formatMajor : Json → String
  upgradeTarget : Json → Except PyError String
  computeTier : EolInfo → Date → Tier
  pricePerVcpuHour : Arith → Tier → Option String → EsPrice
  vcpuPayloadKey : String
  valueBasis : Option String

structure EolRuleConfig where
  ruleName : String
  engines : List EngineEolMatcher
  alertWindowDays : Int

def selectMatcher (config : EolRuleConfig) (engineValue : String) : Option EngineEolMatcher :=
  config.engines.find? fun m => m.engineValue = engineValue

/-- The resource a rule is about, its facts as read, and what the catalog says of its version. -/
structure EolSubject where
  resourceId : Uuid
  accountId : Option Uuid
  major : Json
  versionValue : String
  vcpuCount : Int
  region : Option String
  info : EolInfo
  current : Date
  catalogVersion : String

/-- `round(vcpu_count * rate * HOURS_PER_MONTH, 2)`. -/
def monthlyUsd (fp : Arith) (vcpuCount : Int) (rate : PyFloat) : Except PyError PyFloat :=
  match fp.ofInt vcpuCount, fp.ofInt hoursPerMonth with
  | .ok vcpu, .ok hours => .ok (fp.round 2 (fp.mul (fp.mul vcpu rate) hours))
  | .error e, _ => .error e
  | _, .error e => .error e

def makeInsight (fp : Arith) (config : EolRuleConfig) (m : EngineEolMatcher) (x : EolSubject)
    (daysToEvent : Int) (severity : Severity) (title recommendation : String) :
    Except PyError RuleResult :=
  let tier := m.computeTier x.info x.current
  let price := m.pricePerVcpuHour fp tier x.region
  match monthlyUsd fp x.vcpuCount price.rate with
  | .error e => .error e
  | .ok monthly =>
    let payload : List (String × Json) :=
      [("engine", .str m.engineValue),
        ("engine_display", .str m.displayName),
        ("engine_version", .str x.versionValue),
        ("major_version", x.major),
        ("eol_date", .str x.info.eolDate.isoformat),
        ("end_of_extended_support", .str x.info.endOfExtendedSupport.isoformat),
        ("days_to_event", .int daysToEvent),
        ("pricing_tier", .str tier.name),
        ("pricing_usd_per_vcpu_hour", .float price.rate),
        ("pricing_tier_label", .str tier.name),
        ("pricing_region", .str price.region),
        ("price_region_exact", .bool price.exact),
        ("source_currency", .str "USD"),
        (m.vcpuPayloadKey, .int x.vcpuCount),
        ("extended_support_monthly_usd", .float monthly),
        ("recommendation", .str recommendation),
        ("catalog_version", .str x.catalogVersion),
        ("service_canonical", .str m.serviceCanonical)]
    let basis := m.valueBasis.toList.map fun b => ("value_basis", Json.str b)
    .ok (.gap {
      ruleName := config.ruleName
      resourceId := some x.resourceId
      accountId := x.accountId
      severity := severity
      title := title
      payload := payload ++ basis })

/-- The three branches, in priority order. -/
def evaluateDates (fp : Arith) (config : EolRuleConfig) (m : EngineEolMatcher) (x : EolSubject) :
    Except PyError RuleResult :=
  match m.upgradeTarget x.major with
  | .error e => .error e
  | .ok target =>
    let name := m.displayName ++ " " ++ m.formatMajor x.major
    let daysToForce := x.info.endOfExtendedSupport.daysSince x.current
    let daysToEol := x.info.eolDate.daysSince x.current
    if x.info.endOfExtendedSupport < x.current then
      makeInsight fp config m x daysToForce .critical
        (name ++ " will be force-upgraded in " ++ toString daysToForce ++ " days")
        ("AWS will force-upgrade to " ++ target ++ " on " ++
          x.info.endOfExtendedSupport.isoformat ++ ". Upgrade manually now to control timing.")
    else if daysToEol > config.alertWindowDays then .ok .noMatch
    else if daysToEol ≤ 0 then
      makeInsight fp config m x daysToEol .critical (name ++ " is in Extended Support")
        ("Upgrade to " ++ target ++ " now to stop Extended Support fees")
    else
      makeInsight fp config m x daysToEol .warning
        (name ++ " reaches EOL in " ++ toString daysToEol ++ " days")
        ("Plan upgrade to " ++ target ++ " before " ++ x.info.eolDate.isoformat)

def gates : List String :=
  ["aws.rds.engine", "aws.rds.engine_version", "aws.rds.vcpu", "aws.rds.region"]

/-- The resource with all four facts KNOWN and an engine the rule evaluates. -/
def evaluateKnown (fp : Arith) (config : EolRuleConfig) (m : EngineEolMatcher) (resourceId : Uuid)
    (engine version vcpu region : Fact) (current : Date) (catalogVersion : String) :
    Except PyError RuleResult :=
  match m.parseMajor (Py.str version.value) with
  | .error e => .error e
  | .ok none => .ok (.inconclusive ["aws.rds.engine_version.malformed"])
  | .ok (some major) =>
    match Py.int vcpu.value with
    | .error e =>
      if e.cls = "TypeError" ∨ e.cls = "ValueError" then
        .ok (.inconclusive ["aws.rds.vcpu.malformed"])
      else .error e
    | .ok vcpuCount =>
      match m.lookupEolInfo major with
      | none => .ok .noMatch
      | some info =>
        evaluateDates fp config m {
          resourceId := resourceId
          accountId := engine.accountId
          major := major
          versionValue := Py.str version.value
          vcpuCount := vcpuCount
          region := if region.value = .null then none else some (Py.str region.value)
          info := info
          current := current
          catalogVersion := catalogVersion }

/-- The pipeline of the three end-of-life rules. -/
def evaluateEol (fp : Arith) (config : EolRuleConfig) (catalogVersion : String)
    (resourceId : Uuid) (facts : List Fact) (current : Date) : Except PyError RuleResult :=
  let idx := indexFacts facts
  let inconclusive := RuleResult.inconclusive (idx.missing gates)
  match idx.known "aws.rds.engine" with
  | none => .ok inconclusive
  | some engine =>
    match selectMatcher config (Py.str engine.value) with
    | none => .ok .noMatch
    | some m =>
      match idx.known "aws.rds.engine_version", idx.known "aws.rds.vcpu",
        idx.known "aws.rds.region" with
      | some version, some vcpu, some region =>
        evaluateKnown fp config m resourceId engine version vcpu region current catalogVersion
      | _, _, _ => .ok inconclusive

/-! ## The three rules -/

def keyError (k : Json) : PyError := ⟨"KeyError", Py.repr k⟩

/-- `{...}.get(major)` for a table of numbered majors. -/
def lookupInt (table : List (Int × EolInfo)) : Json → Option EolInfo
  | .int major => find table major
  | _ => none

def lookupStr (table : List (String × EolInfo)) : Json → Option EolInfo
  | .str major => find table major
  | _ => none

/-- The first part when it is all digits; `int` raises on a digit that is not decimal. -/
def parsePostgresMajor (raw : String) : Except PyError (Option Json) :=
  let first := (Py.split '.' raw.toList).headD []
  if Py.isdigit first then
    match Py.parseInt first with
    | some n => .ok (some (.int n))
    | none => .error Py.intOfText
  else .ok none

/-- The first two parts, both all digits, as text. -/
def parseMysqlMajor (raw : String) : Except PyError (Option Json) :=
  match Py.split '.' raw.toList with
  | x :: y :: _ =>
    if Py.isdigit x && Py.isdigit y then
      .ok (some (.str (String.ofList x ++ "." ++ String.ofList y)))
    else .ok none
  | _ => .ok none

/-- The first part after an optional community prefix. -/
def parseAuroraMajor (engineValue raw : String) : Except PyError (Option Json) :=
  let cs := raw.toList
  let cs := if engineValue = "aurora-mysql" then
    (Py.after "mysql_aurora.".toList cs).getD cs else cs
  .ok ((Py.parseInt ((Py.split '.' cs).headD [])).map .int)

/-- `f"{prefix} {major + 1}"`. -/
def nextMajor (name : String) : Json → Except PyError String
  | .int major => .ok (name ++ " " ++ toString (major + 1))
  | major => .error (keyError major)

def mysqlNextMajor : List (String × String) := [("5.7", "8.0"), ("8.0", "8.4")]

def mysqlUpgradeTarget : Json → Except PyError String
  | .str major =>
    match find mysqlNextMajor major with
    | some target => .ok target
    | none => .error (keyError (.str major))
  | major => .error (keyError major)

def auroraMysqlNextMajor : List (Int × String) :=
  [(2, "Aurora MySQL 3 (MySQL 8.0)"), (3, "Aurora MySQL 8.4")]

def auroraMysqlUpgradeTarget : Json → Except PyError String
  | .int major =>
    match find auroraMysqlNextMajor major with
    | some target => .ok target
    | none => .error (keyError (.int major))
  | major => .error (keyError major)

def postgresMatcher : EngineEolMatcher where
  engineValue := "postgres"
  displayName := "RDS PostgreSQL"
  serviceCanonical := "managed_postgres"
  lookupEolInfo := lookupInt postgresEol
  parseMajor := parsePostgresMajor
  formatMajor := Py.str
  upgradeTarget := nextMajor "PostgreSQL"
  computeTier info today := extendedSupportTier info.eolDate today
  pricePerVcpuHour := esPricePerVcpuHour
  vcpuPayloadKey := "vcpu"
  valueBasis := none

def mysqlMatcher : EngineEolMatcher where
  engineValue := "mysql"
  displayName := "RDS MySQL"
  serviceCanonical := "managed_mysql"
  lookupEolInfo := lookupStr mysqlEol
  parseMajor := parseMysqlMajor
  formatMajor := Py.str
  upgradeTarget := mysqlUpgradeTarget
  computeTier := engineExtendedSupportTier
  pricePerVcpuHour := esPricePerVcpuHour
  vcpuPayloadKey := "vcpu_count"
  valueBasis := some "ESTIMATED"

def auroraMysqlMatcher : EngineEolMatcher where
  engineValue := "aurora-mysql"
  displayName := "Aurora MySQL"
  serviceCanonical := "managed_mysql"
  lookupEolInfo := lookupInt auroraMysqlEol
  parseMajor := parseAuroraMajor "aurora-mysql"
  formatMajor := Py.str
  upgradeTarget := auroraMysqlUpgradeTarget
  computeTier := engineExtendedSupportTier
  pricePerVcpuHour := esPricePerVcpuHour
  vcpuPayloadKey := "vcpu_count"
  valueBasis := some "ESTIMATED"

def auroraPostgresMatcher : EngineEolMatcher where
  engineValue := "aurora-postgresql"
  displayName := "Aurora PostgreSQL"
  serviceCanonical := "managed_postgres"
  lookupEolInfo := lookupInt auroraPostgresEol
  parseMajor := parseAuroraMajor "aurora-postgresql"
  formatMajor := Py.str
  upgradeTarget := nextMajor "Aurora PostgreSQL"
  computeTier := engineExtendedSupportTier
  pricePerVcpuHour := esPricePerVcpuHour
  vcpuPayloadKey := "vcpu_count"
  valueBasis := some "ESTIMATED"

def rdsEol : EolRuleConfig := ⟨"rds_eol", [postgresMatcher], 90⟩

def mysqlEolConfig : EolRuleConfig := ⟨"mysql_eol", [mysqlMatcher], 90⟩

def auroraEol : EolRuleConfig := ⟨"aurora_eol", [auroraMysqlMatcher, auroraPostgresMatcher], 90⟩

end Eol

end Constat
