import ElmReach.Main
import ElmReach.Proofs.CommentBetween
import ElmReach.Proofs.Concatenation
import ElmReach.Proofs.ImportsKept
import ElmReach.Proofs.Listing
import ElmReach.Proofs.MergedTables
import ElmReach.Proofs.OutlineStatements
import ElmReach.Proofs.Sweep
import ElmReach.Proofs.Tiling
import ElmReach.Proofs.DocumentKeys
import ElmReach.Proofs.SettingsCheck
import ElmReach.Proofs.SettingsLayers
import ElmReach.Proofs.LinkFree
import ElmReach.Proofs.ScannedFiles
import ElmReach.Proofs.BuildStages
import ElmReach.Proofs.InsideRoot
import ElmReach.Proofs.TwoRuns
import ElmReach.Proofs.DirectoryOrder
import ElmReach.Proofs.ReportTotals
import ElmReach.Proofs.FirstFailure
import ElmReach.Proofs.ValueFaults
import ElmReach.Proofs.SettingsFaults
import ElmReach.Proofs.OpenedLog
import ElmReach.Proofs.SourceFaults
import ElmReach.Proofs.BuildFaults
import ElmReach.Proofs.EscapingFaults
import ElmReach.Proofs.CommentGrammar
import ElmReach.Proofs.LeastDepth
import ElmReach.Proofs.GraphNodes
import ElmReach.Proofs.Layout
import ElmReach.Proofs.NamesInSource
import ElmReach.Proofs.ImportLayout
import ElmReach.Proofs.FileHeader
import ElmReach.Proofs.OutlineCover
import ElmReach.Proofs.OutlineItems
import ElmReach.Proofs.Exclusions
import ElmReach.Proofs.ModuleNames
import ElmReach.Proofs.SourceDirOfFile
import ElmReach.Proofs.ExposedNames
import ElmReach.Proofs.OutlineLines
