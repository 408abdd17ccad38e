import Constat.Catalog.Aws
import Constat.Py.Text

/-!
# Catalog.Ebs

`constat_core/catalog/ebs.py`: storage prices of volumes and snapshots per region. A region or a
type that is not in the grid falls back to us-east-1 and the price says so. The keys of a lookup
are fact values, so a lookup with a list or a dict raises.
-/

namespace Constat

namespace Catalog

def ebsVersion : String := "2026-07-19"

def ebsDefaultRegion : String := "us-east-1"

def storageGridUsd : List (String × List (String × Rat)) :=
  [("us-east-1", [("gp2", 10 / 100), ("gp3", 8 / 100), ("io1", 125 / 1000), ("io2", 125 / 1000),
      ("st1", 45 / 1000), ("sc1", 15 / 1000), ("standard", 5 / 100)]),
    ("eu-west-1", [("gp2", 11 / 100), ("gp3", 88 / 1000), ("io1", 138 / 1000), ("io2", 138 / 1000),
      ("st1", 5 / 100), ("sc1", 168 / 10000), ("standard", 55 / 1000)]),
    ("eu-west-3", [("gp2", 116 / 1000), ("gp3", 928 / 10000), ("io1", 145 / 1000),
      ("io2", 145 / 1000), ("st1", 53 / 1000), ("sc1", 174 / 10000), ("standard", 58 / 1000)])]

def snapshotGridUsd : List (String × List (String × Rat)) :=
  [("us-east-1", [("standard", 5 / 100), ("archive", 125 / 10000)]),
    ("eu-west-1", [("standard", 5 / 100), ("archive", 125 / 10000)]),
    ("eu-west-3", [("standard", 53 / 1000), ("archive", 1325 / 100000)])]

/-- A rate and the region it is taken from. -/
structure GbPrice where
  usdPerGbMonth : PyFloat
  region : String

/-- The rate of one grid entry; only a string key can be in a grid. -/
def gridPrice (fp : Arith) (grid : List (String × List (String × Rat))) (region kind : Json) :
    Except PyError (Option GbPrice) :=
  match Py.unhashable region, Py.unhashable kind with
  | some e, _ => .error e
  | none, some e => .error e
  | none, none =>
    match region, kind with
    | .str region, .str kind =>
      .ok (((find grid region).bind fun rates => find rates kind).map fun rate =>
        ⟨fp.lit rate, region⟩)
    | _, _ => .ok none

/-- The price in `region`, else in the default region. -/
def pricePerGbMonth (fp : Arith) (grid : List (String × List (String × Rat)))
    (kind region : Json) : Except PyError (Option GbPrice) :=
  let fallback := gridPrice fp grid (.str ebsDefaultRegion) kind
  if region = .null then fallback
  else
    match gridPrice fp grid region kind with
    | .ok none => fallback
    | priced => priced

def ebsPricePerGbMonth (fp : Arith) (volumeType region : Json) : Except PyError (Option GbPrice) :=
  pricePerGbMonth fp storageGridUsd volumeType region

def ebsSnapshotPricePerGbMonth (fp : Arith) (tier region : Json) :
    Except PyError (Option GbPrice) :=
  pricePerGbMonth fp snapshotGridUsd tier region

/-- Whether the price is on the grid of the region asked for. -/
def priceRegionExact (requested : Json) (price : GbPrice) : Bool :=
  requested = .null ∨ requested = .str price.region

end Catalog

end Constat
