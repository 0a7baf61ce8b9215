import ServiceModel.Model.Names

/-!
Mixins: auxiliary services (locations, access policies, long-running operations) whose methods other
services offer under their own names.
-/

namespace ServiceModel

inductive Mixin where
  | locations
  | iamPolicy
  | operations
  deriving DecidableEq, Repr, Inhabited

namespace Mixin

/-- The full name of the service, without a dot in front. -/
def service : Mixin → String
  | .locations => "google.cloud.location.Locations"
  | .iamPolicy => "google.iam.v1.IAMPolicy"
  | .operations => "google.longrunning.Operations"

/-- The file that declares the service. -/
def file : Mixin → String
  | .locations => "google/cloud/location/locations.proto"
  | .iamPolicy => "google/iam/v1/iam_policy.proto"
  | .operations => "google/longrunning/operations.proto"

def id (m : Mixin) : String := "." ++ m.service

/-- The last part of the service's name. -/
def shortName (m : Mixin) : String := Text.lastPiece '.' m.service

def all : List Mixin := [.locations, .iamPolicy, .operations]

/-- The mixin with a service, whose name may have a dot in front. -/
def ofService? (name : String) : Option Mixin := all.find? fun m => m.service == selectorOf name

theorem mem_all (m : Mixin) : m ∈ all := by cases m <;> simp [all]

end Mixin

/-- Whether a name, with or without a dot in front, is that of a mixin. -/
def isMixinApi (name : String) : Bool := (Mixin.ofService? name).isSome

end ServiceModel
