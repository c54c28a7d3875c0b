import SpsdkFuses.Register
import SpsdkFuses.Operator
import SpsdkFuses.Fuses
import SpsdkFuses.Spec
import SpsdkFuses.Termination
import SpsdkFuses.ReadGuard
import SpsdkFuses.WriteGuard
import SpsdkFuses.Burn
import SpsdkFuses.Context
import SpsdkFuses.Script
import SpsdkFuses.FuseScript
import SpsdkFuses.Transport
import SpsdkFuses.Coherence
import SpsdkFuses.Backup
import SpsdkFuses.BurnRun
import SpsdkFuses.Setup
import SpsdkFuses.Config
