import PoseFilter.PoseState

/-!
# Motion models

How a state moves on its own.  A `MotionModel` says where a state is after a time step and how much
noise the step adds; `Motion` is the model of a rigid body with constant velocities, driven by white
noise on the accelerations.  With damping, both velocities first lose a share that depends on the
length of the step and then advance the pose.
-/

namespace PoseFilter

/-- A law of motion: the state after a time step, with its covariance carried along, and the
covariance of the noise that the step adds. -/
structure MotionModel (S α : Type) where
  advance : S → α → S × Grid α

/-- The motion of a rigid body under noise on its accelerations. -/
structure Motion (α : Type) where
  /-- The density of the noise on the acceleration. -/
  positionNoise : α
  /-- The density of the noise on the angular acceleration. -/
  orientationNoise : α
  /-- The share of the velocities that is left after one second; none keeps them constant. -/
  damping : Option α
  deriving BEq

namespace Motion

variable {α : Type} [Scalar α]

/-- The standard density of the noise on the acceleration. -/
def defaultPositionNoise : α := 0.01

/-- The standard density of the noise on the angular acceleration. -/
def defaultOrientationNoise : α := 0.1

/-- The standard share of the velocities that is left after one second. -/
def defaultDamping : α := 0.3

/-- Constant velocities with the standard noise. -/
def constantVelocity : Motion α := ⟨defaultPositionNoise, defaultOrientationNoise, none⟩

/-- Damped velocities with the standard noise. -/
def damped : Motion α := ⟨defaultPositionNoise, defaultOrientationNoise, some defaultDamping⟩

/-- A density of noise is finite and not negative. -/
def checkDensity (name : String) (value : α) : Except (FilterError α) Unit :=
  if Scalar.isFinite value ∧ 0 ≤ value then .ok ()
  else .error (.invalidParameter name (.notFiniteNonNegative value))

/-- The parameters are in range: densities first, then the damping in `(0, 1]`. -/
def check (m : Motion α) : Except (FilterError α) Unit := do
  checkDensity "position_noise" m.positionNoise
  checkDensity "orientation_noise" m.orientationNoise
  match m.damping with
  | none => pure ()
  | some d =>
    if 0 < d ∧ d ≤ 1 then pure ()
    else throw (.invalidParameter "damping" (.notFraction d))

/-- The factor on the velocities over a step. -/
def attenuation (m : Motion α) (dt : α) : α :=
  match m.damping with
  | none => 1
  | some d => Scalar.pow d dt

/-- The linear law of the error over a step: attenuated velocities advance position and
rotation. -/
def transition (dt attenuation : α) : Mat α PoseState.dim PoseState.dim :=
  Mat.ofFn fun i j =>
    if i = j then (if i.val < 6 then 1 else attenuation)
    else if i.val + 6 = j.val then attenuation * dt
    else 0

/-- The covariance that a step adds: per axis, with density `μ`,
`μ dt³ / 3` on the value, `μ dt² / 2` between value and rate, and `μ dt` on the rate. -/
def noise (m : Motion α) (dt : α) : Mat α PoseState.dim PoseState.dim :=
  let dt2 := dt * dt
  let dt3 := dt2 * dt
  Mat.ofFn fun i j =>
    let μ := if i.val % 6 < 3 then m.positionNoise else m.orientationNoise
    if i = j then (if i.val < 6 then μ * dt3 / 3.0 else μ * dt)
    else if i.val + 6 = j.val ∨ j.val + 6 = i.val then μ * dt2 / 2.0
    else 0

/-- The mean after a step: velocities attenuated, then position and orientation advanced by
them. -/
def advanceMean (s : PoseState α) (dt attenuation : α) : PoseState α :=
  let v := s.velocity.scale attenuation
  let ω := s.angularVelocity.scale attenuation
  { s with
    velocity := v
    angularVelocity := ω
    position := s.position + v.scale dt
    orientation := (Rotation.ofVector (ω.scale dt) * s.orientation).normalized }

/-- A covariance carried through a step, `A P Aᵀ`; one of another shape is left alone. -/
def carry (p : Grid α) (dt attenuation : α) : Grid α :=
  match p.asMat? PoseState.dim PoseState.dim with
  | some p =>
    let a := transition dt attenuation
    (a * p * a.transpose).toGrid
  | none => p

/-- Mean and covariance after a step, without the noise of the step. -/
def advance (m : Motion α) (s : PoseState α) (dt : α) : PoseState α :=
  let factor := m.attenuation dt
  { advanceMean s dt factor with covariance := carry s.covariance dt factor }

/-- The law of motion of the filter. -/
def toModel (m : Motion α) : MotionModel (PoseState α) α :=
  ⟨fun s dt => (m.advance s dt, (m.noise dt).toGrid)⟩

end Motion

end PoseFilter
