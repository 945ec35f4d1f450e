import Os2moFkk.Deletion
import Os2moFkk.Quiescence
import Os2moFkk.Residue
import Os2moFkk.NoLoop
import Os2moFkk.ReadBack
import Os2moFkk.SingleDays
import Os2moFkk.DisjointStates
import Os2moFkk.SameMeaning
import Os2moFkk.Pipeline
import Os2moFkk.Cascade
import Os2moFkk.Provenance
import Os2moFkk.SharedTokens
import Os2moFkk.SyncOverSoap
import Os2moFkk.ReadMo
import Os2moFkk.GeneratorOverSoap
