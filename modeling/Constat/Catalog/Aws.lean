import Constat.Py.Calendar
import Constat.Py.Float

/-!
# Catalog.Aws

`constat_core/catalog/aws.py`: end-of-life dates per major version, the Extended Support price
grid and the vCPUs of the instance classes. `EolInfo` is the one record behind `PostgresEOLInfo`
and `EngineEOLInfo`: a standalone PostgreSQL entry has a year-3 price and no published year-3 start.
-/

namespace Constat

namespace Catalog

def awsVersion : String := "2026-07-19"

structure EolInfo where
  eolDate : Date
  year12UsdPerVcpuHour : Rat
  year3PlusUsdPerVcpuHour : Option Rat
  endOfExtendedSupport : Date
  year3Start : Option Date

def eolInfo (eol : Date) (year3 : Option Rat) (endOfEs : Date) (year3Start : Option Date) :
    EolInfo where
  eolDate := eol
  year12UsdPerVcpuHour := 1 / 10
  year3PlusUsdPerVcpuHour := year3
  endOfExtendedSupport := endOfEs
  year3Start := year3Start

def postgresEol : List (Int × EolInfo) :=
  [(11, eolInfo (.ofYmd 2024 2 29) (some (1 / 5)) (.ofYmd 2027 3 31) none),
    (12, eolInfo (.ofYmd 2025 2 28) (some (1 / 5)) (.ofYmd 2028 2 29) none),
    (13, eolInfo (.ofYmd 2026 2 28) (some (1 / 5)) (.ofYmd 2029 2 28) none),
    (14, eolInfo (.ofYmd 2027 2 28) (some (1 / 5)) (.ofYmd 2030 2 28) none),
    (15, eolInfo (.ofYmd 2028 2 29) (some (1 / 5)) (.ofYmd 2031 2 28) none)]

def mysqlEol : List (String × EolInfo) :=
  [("5.7", eolInfo (.ofYmd 2024 2 29) (some (1 / 5)) (.ofYmd 2029 6 30) (some (.ofYmd 2026 3 1))),
    ("8.0", eolInfo (.ofYmd 2026 7 31) (some (1 / 5)) (.ofYmd 2029 7 31) (some (.ofYmd 2028 8 1)))]

/-- Aurora MySQL has no year-3 tier. -/
def auroraMysqlEol : List (Int × EolInfo) :=
  [(2, eolInfo (.ofYmd 2024 10 31) none (.ofYmd 2029 6 30) none),
    (3, eolInfo (.ofYmd 2028 4 30) none (.ofYmd 2029 7 31) none)]

def auroraPostgresEol : List (Int × EolInfo) :=
  [(11, eolInfo (.ofYmd 2024 2 29) (some (1 / 5)) (.ofYmd 2027 3 31) (some (.ofYmd 2026 4 1))),
    (12, eolInfo (.ofYmd 2025 2 28) (some (1 / 5)) (.ofYmd 2028 2 29) (some (.ofYmd 2027 3 1))),
    (13, eolInfo (.ofYmd 2026 2 28) (some (1 / 5)) (.ofYmd 2029 2 28) (some (.ofYmd 2028 3 1))),
    (14, eolInfo (.ofYmd 2027 2 28) (some (1 / 5)) (.ofYmd 2030 2 28) (some (.ofYmd 2029 3 1))),
    (15, eolInfo (.ofYmd 2028 2 29) (some (1 / 5)) (.ofYmd 2031 2 28) (some (.ofYmd 2030 3 1)))]

/-- `dict.get` on a literal table. -/
def find {κ υ : Type} [DecidableEq κ] (table : List (κ × υ)) (k : κ) : Option υ :=
  (table.find? fun p => p.1 = k).map (·.2)

theorem find_some {κ υ : Type} [DecidableEq κ] {table : List (κ × υ)} {k : κ} {v : υ}
    (h : find table k = some v) : (k, v) ∈ table := by
  obtain ⟨p, hp, rfl⟩ := Option.map_eq_some_iff.1 h
  have hk := List.find?_some hp
  rw [decide_eq_true_eq] at hk
  exact hk ▸ List.mem_of_find?_eq_some hp

/-! ## Extended Support pricing -/

inductive Tier where
  | year12
  | year3Plus
deriving DecidableEq

def Tier.name : Tier → String
  | .year12 => "year_1_2"
  | .year3Plus => "year_3_plus"

/-- 730-day windows from the end of standard support. -/
def extendedSupportTier (eolDate today : Date) : Tier :=
  if today.daysSince eolDate < 730 then .year12 else .year3Plus

/-- The published start of year 3, when the engine has a year-3 price. -/
def engineExtendedSupportTier (info : EolInfo) (today : Date) : Tier :=
  match info.year3Start, info.year3PlusUsdPerVcpuHour with
  | some start, some _ => if start ≤ today then .year3Plus else .year12
  | _, _ => .year12

def esDefaultRegion : String := "us-east-1"

def esPriceByRegion : List (String × (Tier → Rat)) :=
  [("us-east-1", fun | .year12 => 100 / 1000 | .year3Plus => 200 / 1000),
    ("eu-west-1", fun | .year12 => 112 / 1000 | .year3Plus => 224 / 1000),
    ("eu-west-3", fun | .year12 => 118 / 1000 | .year3Plus => 235 / 1000)]

structure EsPrice where
  rate : PyFloat
  region : String
  exact : Bool

/-- Rate, the region it is taken from, and whether that is the region asked for. -/
def esPricePerVcpuHour (fp : Arith) (tier : Tier) (region : Option String) : EsPrice :=
  match region.bind fun r => (find esPriceByRegion r).map fun grid => (r, grid) with
  | some (r, grid) => ⟨fp.lit (grid tier), r, true⟩
  | none =>
    let grid := (find esPriceByRegion esDefaultRegion).getD fun _ => 0
    ⟨fp.lit (grid tier), esDefaultRegion, region.isNone⟩

/-! ## Instance classes -/

def rdsInstanceVcpu : List (String × Int) :=
  [("db.t3.micro", 2), ("db.t3.small", 2), ("db.t3.medium", 2), ("db.t3.large", 2),
    ("db.t3.xlarge", 4), ("db.t3.2xlarge", 8), ("db.t4g.micro", 2), ("db.t4g.small", 2),
    ("db.t4g.medium", 2), ("db.t4g.large", 2), ("db.t4g.xlarge", 4), ("db.t4g.2xlarge", 8),
    ("db.m5.large", 2), ("db.m5.xlarge", 4), ("db.m5.2xlarge", 8), ("db.m5.4xlarge", 16),
    ("db.m5.8xlarge", 32), ("db.m5.12xlarge", 48), ("db.m5.16xlarge", 64), ("db.m5.24xlarge", 96),
    ("db.m6i.large", 2), ("db.m6i.xlarge", 4), ("db.m6i.2xlarge", 8), ("db.m6i.4xlarge", 16),
    ("db.m6i.8xlarge", 32), ("db.m6i.12xlarge", 48), ("db.m6i.16xlarge", 64),
    ("db.m6i.24xlarge", 96), ("db.m6g.large", 2), ("db.m6g.xlarge", 4), ("db.m6g.2xlarge", 8),
    ("db.m6g.4xlarge", 16), ("db.m6g.8xlarge", 32), ("db.m6g.12xlarge", 48),
    ("db.m6g.16xlarge", 64), ("db.m6g.24xlarge", 96), ("db.m7g.large", 2), ("db.m7g.xlarge", 4),
    ("db.m7g.2xlarge", 8), ("db.m7g.4xlarge", 16), ("db.m7g.8xlarge", 32), ("db.m7g.12xlarge", 48),
    ("db.m7g.16xlarge", 64), ("db.m7g.24xlarge", 96), ("db.r5.large", 2), ("db.r5.xlarge", 4),
    ("db.r5.2xlarge", 8), ("db.r5.4xlarge", 16), ("db.r5.8xlarge", 32), ("db.r5.12xlarge", 48),
    ("db.r5.16xlarge", 64), ("db.r5.24xlarge", 96), ("db.r6i.large", 2), ("db.r6i.xlarge", 4),
    ("db.r6i.2xlarge", 8), ("db.r6i.4xlarge", 16), ("db.r6i.8xlarge", 32), ("db.r6i.12xlarge", 48),
    ("db.r6i.16xlarge", 64), ("db.r6i.24xlarge", 96), ("db.r6g.large", 2), ("db.r6g.xlarge", 4),
    ("db.r6g.2xlarge", 8), ("db.r6g.4xlarge", 16), ("db.r6g.8xlarge", 32), ("db.r6g.12xlarge", 48),
    ("db.r6g.16xlarge", 64), ("db.r6g.24xlarge", 96), ("db.r7g.large", 2), ("db.r7g.xlarge", 4),
    ("db.r7g.2xlarge", 8), ("db.r7g.4xlarge", 16), ("db.r7g.8xlarge", 32), ("db.r7g.12xlarge", 48),
    ("db.r7g.16xlarge", 64), ("db.r7g.24xlarge", 96)]

def vcpuForInstanceClass (instanceClass : String) : Option Int := find rdsInstanceVcpu instanceClass

end Catalog

end Constat
